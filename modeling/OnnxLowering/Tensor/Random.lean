/-
Random tensors. A tensor is filled from a stream of numbers that its
seed determines: equal seeds give equal tensors, and that is all that is
promised of the numbers themselves. They are then scaled and shifted, in
general by numbers; but a scale, mean or seed can also be a tensor, and
then the arithmetic is that of tensors.
-/
import OnnxLowering.Tensor.Arithmetic

namespace OnnxLowering

/-- The seed of a random tensor: an integer, of which only the low 32
bits count, or nothing. -/
abbrev Seed := Option Nat

namespace Seed

/-- The seed that an integer stands for. -/
def ofInt (i : Int) : Seed := some (i % 0x100000000).toNat

/-- The seed that a number stands for, the integer part of it. -/
def ofDatum (x : Datum) : Except RunError Seed :=
  match x, x.truncate with
  | _, some i => .ok (ofInt i)
  | .nan, none => .error .undefinedSeed
  | _, none => .error .infiniteSeed

/-- The seed that a tensor stands for, which has to be a single element. A
complex one has to be an integer of 64 bits. -/
def ofTensor (t : Tensor) : Except RunError Seed := do
  let x := t.data.getD 0 0
  if t.data.size ≠ 1 then throw .undefinedSeed
  match t.dtype.layout with
  | .real format => ofDatum (format.decode x)
  | .complex _ =>
      if (Element.imaginary t.dtype x).isNonzero then throw .typeMismatch
      match (Element.datum t.dtype x).truncate with
      | some i => if Shape.isWord i then return ofInt i else throw .typeMismatch
      | none => throw .typeMismatch
  | _ => return ofInt (Element.toInt t.dtype x)

end Seed

/-- A quantity that a random tensor is made with. -/
inductive Quantity where
  | number (x : Datum)
  | tensor (t : Tensor)
  /-- Something that is no value at all. -/
  | absent

namespace Quantity

/-- The quantity with the opposite sign. -/
def negate : Quantity → Except RunError Quantity
  | number x => .ok (.number x.negate)
  | tensor t => t.negate.map .tensor
  | absent => .error .absentOperand

/-- The quantity as an operand of arithmetic with `t`. A number takes the
type of `t`. -/
def operand (t : Tensor) : Quantity → Except RunError Tensor
  | number x =>
      .ok (.scalar t.dtype
        (Element.cast .float64 t.dtype (BinaryFormat.double.encode x)))
  | tensor other => .ok other
  | absent => .error .absentOperand

/-- The quantity as a seed. What is no value stands for no seed. -/
def seed : Quantity → Except RunError Seed
  | number x => Seed.ofDatum x
  | tensor t => Seed.ofTensor t
  | absent => .ok none

end Quantity

namespace Noise

/-- A mixing step on 64 bits, after which neighbouring numbers have
little in common. -/
def mix (x : UInt64) : UInt64 :=
  let x := x + 0x9e3779b97f4a7c15
  let x := (x ^^^ (x >>> 30)) * 0xbf58476d1ce4e5b9
  let x := (x ^^^ (x >>> 27)) * 0x94d049bb133111eb
  x ^^^ (x >>> 31)

/-- Where the stream of a seed starts. -/
def start (seed : Seed) : UInt64 := mix (UInt64.ofNat (seed.getD 0x100000000))

/-- Number `i` of the stream that starts at `start`, between -2 and 2. -/
def value (start : UInt64) (i : Nat) : Datum :=
  let units : Int := (mix (start + UInt64.ofNat i) >>> 40).toNat - 0x800000
  .finite (decide (units < 0)) units.natAbs (-22)

end Noise

namespace Tensor

/-- The type in which random numbers are drawn for a tensor of a type. -/
def noiseType (dtype : DType) : DType := if dtype = .float64 then .float64 else .float32

/-- The format in which they are drawn. -/
def noiseFormat (dtype : DType) : BinaryFormat :=
  if dtype = .float64 then .double else .single

/-- A tensor of random numbers. -/
def noise (shape : Shape) (dtype : DType) (seed : Seed) : Tensor :=
  let start := Noise.start seed
  ofFn (noiseType dtype) shape fun is =>
    (noiseFormat dtype).encode (Noise.value start (shape.offset is))

/-- The shape that some dimensions give. They can turn out to be none,
or to be too large. -/
def noiseShape (dims : List Int) (dtype : DType) : Except RunError Shape := do
  unless dims.all Shape.isWord do throw .hugeSize
  unless dims.all (0 ≤ ·) do throw .sizeMismatch
  let shape := dims.map Int.toNat
  unless Shape.isStorable shape (noiseType dtype).byteWidth do throw .sizeMismatch
  return shape

/-- A tensor of `noise * scale + mean`, cast to the type asked for at the
end. The seed is looked at first, then the shape. -/
def random (dims : List Int) (dtype : DType) (mean scale seed : Quantity) :
    Except RunError Tensor := do
  let seed ← seed.seed
  let noise := noise (← noiseShape dims dtype) dtype seed
  let scaled ← noise.multiply (← scale.operand noise)
  let shifted ← scaled.add (← mean.operand scaled)
  return shifted.cast dtype

end Tensor

end OnnxLowering
