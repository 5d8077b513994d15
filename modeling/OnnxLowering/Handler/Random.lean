/-
Random tensors, of a given shape or of the shape of an input.
-/
import OnnxLowering.Lowering.Value

namespace OnnxLowering.Handler

open Lower

/-- The code of the element type that random numbers have unless it is
said otherwise. -/
def randomTypeCode : Int := 1

/-- The real type that a code stands for. -/
def randomType (node : NodeOf Importer) (code : Int) : Lower DType :=
  match (DType.ofCode code).filter DType.isReal with
  | some dtype => return dtype
  | none => invalid node (.randomType code)

/-- A number among the attributes. -/
def numberOr (values : Attributes) (name : String) (default : Nat) : Lower Nat :=
  match values.find? name with
  | some value => ofExcept .argument value.toNumber
  | none => return default

/-- Mean, scale and seed; without them the numbers are standard normal
and differ from run to run. -/
def distribution (values : Attributes) : Lower (Nat × Nat × Option Nat) := do
  let mean ← numberOr values "mean" (BinaryFormat.double.encode (.ofInt 0))
  let scale ← numberOr values "scale" (BinaryFormat.double.encode (.ofInt 1))
  let seed ← match values.find? "seed" with
    | some value => some <$> ofExcept .argument value.toNumber
    | none => pure none
  return (mean, scale, seed)

def random : Handler := fun node => do
  let values ← attributes node
  match values.find? "shape" with
  | none => invalid node (.missingAttribute "shape")
  | some value =>
      let dims ← ofExcept .argument value.toInts
      let code ← match values.find? "dtype" with
        | some value => ofExcept .argument value.toInt
        | none => pure randomTypeCode
      let dtype ← randomType node code
      let (mean, scale, seed) ← distribution values
      return .one (← apply node (.random dims dtype mean scale seed) [] 0)

/-- Without a type of its own the result has that of the input. -/
def randomLike : Handler := fun node => do
  let values ← attributes node
  let like ← input node 0
  let dtype ← match values.find? "dtype" with
    | some value => do
        let code ← ofExcept .argument value.toInt
        some <$> randomType node code
    | none => pure none
  let (mean, scale, seed) ← distribution values
  return .one (← apply node (.randomLike dtype mean scale seed) [like] 0)

end OnnxLowering.Handler
