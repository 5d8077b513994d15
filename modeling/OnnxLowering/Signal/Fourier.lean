/-
The discrete Fourier transform. `component` is one component of the
spectrum of one vector, summed directly from its definition in double
precision; `transform` applies it to the vectors along the third
dimension of a tensor. The vectors are padded with zeros, or cut, to the
length of the transform.
-/
import OnnxLowering.Tensor.Basic

namespace OnnxLowering

namespace Fourier

/-- The number that a double pattern denotes. -/
def toFloat (bits : Nat) : Float := Float.ofBits (UInt64.ofNat bits)

/-- The pattern of a format that is nearest to a number. -/
def ofFloat (format : BinaryFormat) (x : Float) : Nat :=
  BinaryFormat.double.convert format x.toBits.toNat

/-- The angle of the circle's point number `i` of `n`, in radians. -/
def angle (n i : Nat) : Float := 2.0 * 3.14159265358979323846 * i.toFloat / n.toFloat

/-- A complex number turned back by `i` of `n` equal parts of the
circle. Quarters of the circle turn it exactly. -/
def turnBack (n i : Nat) (z : Float × Float) : Float × Float :=
  let (x, y) := z
  if i = 0 then (x, y)
  else if 4 * i = n then (y, -x)
  else if 2 * i = n then (-x, -y)
  else if 4 * i = 3 * n then (-y, x)
  else
    let turn := angle n i
    (x * turn.cos + y * turn.sin, y * turn.cos - x * turn.sin)

/-- Component `k` of the spectrum of a vector of `n` complex numbers, of
which those from number `held` on are zero: the sum of the numbers,
number `i` turned back by `i * k` of `n` equal parts of the circle. -/
def component (format : BinaryFormat) (n held : Nat) (samples : Nat → Float × Float)
    (k : Nat) : Nat × Nat :=
  let total := (List.range (min held n)).foldl
    (fun (re, im) i =>
      let (x, y) := turnBack n (i * k % n) (samples i)
      (re + x, im + y))
    ((0.0, 0.0) : Float × Float)
  (ofFloat format total.1, ofFloat format total.2)

/-- The number of components that determine the spectrum of a vector of
`n` real numbers. -/
def halfCount (n : Nat) : Nat := n / 2 + 1

end Fourier

namespace Tensor

/-- The dimension along which spectra are taken. -/
def spectrumAxis : Nat := 2

/-- The format in which the spectrum of a tensor is computed. Integers
are taken as `float32`; half precision has no transform. -/
def spectrumFormat (dtype : DType) : Except RunError BinaryFormat :=
  match dtype.layout with
  | .real format => if format.working = format then .ok format else .error .noArithmetic
  | .complex format => if format.working = format then .ok format else .error .typeMismatch
  | _ => .ok .single

/-- The samples of the signal that frames hold, as pairs of doubles. The
last dimension of `frames` holds the parts of a sample: two, or else only
the first entry counts. -/
def samples (frames : Tensor) (format : BinaryFormat) (channels : Nat) : Tensor :=
  ofFn .float64 (frames.shape.dropLast ++ [2]) fun is =>
    let place := is.dropLast
    let part := is.getLastD 0
    let bits :=
      if channels = 2 then frames.get (place ++ [part])
      else
        let x := frames.get (place ++ [0])
        format.settle
          (if part = 0 then Element.datum frames.dtype x else Element.imaginary frames.dtype x)
    format.convert .double bits

/-- The complex number at a place of such samples. -/
def complexAt (samples : Tensor) (place : List Nat) : Float × Float :=
  (Fourier.toFloat (samples.get (place ++ [0])), Fourier.toFloat (samples.get (place ++ [1])))

/-- The element type of the signal that frames hold. Real and imaginary
part in two channels make a complex signal of a real type that has a
complex one; with another number of channels the first one is the
signal. -/
def signalType (frames : Tensor) (channels : Nat) : Except RunError DType :=
  if channels = 0 then .error .indexOutOfRange
  else if channels ≠ 2 then .ok frames.dtype
  else if frames.dtype.isComplex then .error .complexSignal
  else
    match frames.dtype.toComplex? with
    | some dtype => .ok dtype
    | none => .error .noArithmetic

/-- What can be wrong with a transform, in the order in which it is looked
at: the length of it is no 64-bit integer, it is one-sided and the signal
complex, the precision is too low for it, the axis is not there, the
length is not positive, or the spectrum is larger than any memory. A
complex signal of low precision is refused only in the end. -/
def checkTransform (dtype : DType) (places : Shape) (length : Int) (oneSided : Bool) :
    Except RunError BinaryFormat := do
  unless Shape.isWord length do throw .hugeInteger
  if oneSided && dtype.isComplex then throw .complexSignal
  unless dtype.isComplex do let _ ← spectrumFormat dtype
  if places.length ≤ spectrumAxis then throw .axisOutOfRange
  if length < 1 then throw .sizeMismatch
  let format ← spectrumFormat dtype
  unless Shape.isStorable (places.set spectrumAxis length.toNat) (format.width / 4) do
    throw .sizeMismatch
  return format

/-- The spectrum of every vector along `spectrumAxis`, for transforms of
the given length, all components or only the first half. The last
dimension of `frames` is 2 for complex samples and counts as 1
otherwise; the last dimension of the result holds the real and the
imaginary part. -/
def transform (frames : Tensor) (length : Int) (oneSided : Bool) :
    Except RunError Tensor := do
  let channels ← frames.sizeAlong (-1)
  let places := frames.shape.dropLast
  let format ← checkTransform (← signalType frames channels) places length oneSided
  let n := length.toNat
  let held := places.getD spectrumAxis 0
  let count := if oneSided then Fourier.halfCount n else n
  let dtype : DType := if format = .double then .float64 else .float32
  let samples := frames.samples format channels
  return ofFn dtype (places.set spectrumAxis count ++ [2]) fun is =>
    let place := is.dropLast
    let component := Fourier.component format n held
      (fun i => samples.complexAt (place.set spectrumAxis i)) (place.getD spectrumAxis 0)
    if is.getLastD 0 = 0 then component.1 else component.2

end Tensor

end OnnxLowering
