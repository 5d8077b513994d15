/-
Elementwise arithmetic with broadcasting. The operands are cast to a
common type, stretched to a common shape, and combined element by
element.
-/
import OnnxLowering.Tensor.Basic

namespace OnnxLowering.Tensor

/-- The element type of a sum or product. An operand without dimensions
counts only where its category is higher than that of the other one. There
is no complex type with parts of the brain format. -/
def commonType (a b : Tensor) : Except RunError DType :=
  let found : Option DType → Except RunError DType
    | some dtype => .ok dtype
    | none => .error .typeMismatch
  let scalar (dtype other : DType) : Except RunError DType :=
    if dtype.isReal && other.isComplex && dtype.toComplex?.isNone then .error .noArithmetic
    else found (dtype.promoteScalar other)
  match a.shape, b.shape with
  | [], _ :: _ => scalar b.dtype a.dtype
  | _ :: _, [] => scalar a.dtype b.dtype
  | _, _ => found (a.dtype.promote b.dtype)

/-- Both operands stretched to a common shape and combined element by
element. -/
def zipWith (dtype : DType) (combine : Nat → Nat → Nat) (a b : Tensor) :
    Except RunError Tensor :=
  match Shape.broadcast? a.shape b.shape with
  | some shape =>
      .ok <| ofFn dtype shape fun is =>
        combine (a.get (Shape.project a.shape is)) (b.get (Shape.project b.shape is))
  | none => .error .sizeMismatch

/-- The elementwise sum. There are no sums of storage-only types. -/
def add (a b : Tensor) : Except RunError Tensor := do
  let dtype ← commonType a b
  let sum ← zipWith dtype
    (fun x y => Element.add dtype (Element.cast a.dtype dtype x) (Element.cast b.dtype dtype y))
    a b
  if dtype.isStorageOnly then throw .noArithmetic
  return sum

/-- The type in which the right operand of a product takes part: a
single element is not rounded to a half-precision type before the
product is. -/
def factorType (dtype : DType) (b : Tensor) : DType :=
  match dtype.layout with
  | .real format =>
      if b.data.size = 1 && format.working ≠ format then .float32 else dtype
  | _ => dtype

/-- The product of an element of type `dtype` and one of the type in
which the right operand takes part. -/
def multiplyElement (dtype factor : DType) (x y : Nat) : Nat :=
  if factor = dtype then Element.multiply dtype x y
  else
    Element.cast factor dtype (Element.multiply factor (Element.cast dtype factor x) y)

/-- The elementwise product. -/
def multiply (a b : Tensor) : Except RunError Tensor := do
  let dtype ← commonType a b
  let factor := factorType dtype b
  zipWith dtype
    (fun x y =>
      multiplyElement dtype factor (Element.cast a.dtype dtype x)
        (Element.cast b.dtype factor y))
    a b

/-- The elementwise negation. It is not defined on booleans, nor on
storage-only types. -/
def negate (t : Tensor) : Except RunError Tensor :=
  if t.dtype = .bool || t.dtype.isStorageOnly then .error .noArithmetic
  else .ok <| ofFn t.dtype t.shape fun is => Element.negate t.dtype (t.get is)

/-- The elementwise square root. Complex numbers of half precision have
none. -/
def sqrt (t : Tensor) : Except RunError Tensor :=
  let dtype := Element.sqrtType t.dtype
  if dtype = .complex32 then .error .noArithmetic
  else
    .ok <| ofFn dtype t.shape fun is => Element.sqrt dtype (Element.cast t.dtype dtype (t.get is))

end OnnxLowering.Tensor
