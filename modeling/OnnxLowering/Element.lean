/-
Arithmetic on single elements. An element is its bit pattern, read by
the layout of its type; every operation takes patterns to a pattern.
Integers wrap around, booleans join and meet, real numbers are rounded
once. The two half-precision formats work in `single` and are rounded a
second time when the result is stored, as are values converted to them.
-/
import OnnxLowering.DType
import OnnxLowering.Number.Root

namespace OnnxLowering

-- ================================================== real numbers, rounded

namespace BinaryFormat

variable (format : BinaryFormat)

/-- The format in which operations on `format` are carried out: its own,
unless it is narrower than `single`. -/
def working : BinaryFormat :=
  if format.fractionBits < single.fractionBits then single else format

/-- The pattern of a result: rounded to the working format, then to the
format itself. -/
def settle (x : Datum) : Nat := format.working.convert format (format.working.encode x)

/-- Significant bits that suffice for one rounding of an irrational
result. -/
def precision : Nat := format.working.fractionBits + 4

def add (a b : Nat) : Nat := format.settle (.add (format.decode a) (format.decode b))

def subtract (a b : Nat) : Nat :=
  format.settle (.subtract (format.decode a) (format.decode b))

def multiply (a b : Nat) : Nat :=
  format.settle (.multiply (format.decode a) (format.decode b))

def divide (a b : Nat) : Nat :=
  format.settle (.divide format.precision (format.decode a) (format.decode b))

def sqrt (a : Nat) : Nat := format.settle (.sqrt format.precision (format.decode a))

def magnitude (a : Nat) : Nat := a % format.signWeight

/-- The magnitude of `a` under the sign of `b`. -/
def copySign (a b : Nat) : Nat :=
  format.magnitude a + (b / format.signWeight % 2) * format.signWeight

/-- The length of the vector `(a, b)`, rounded once. -/
def hypotenuse (a b : Nat) : Nat :=
  let square (x : Nat) := Datum.multiply (format.decode x) (format.decode x)
  format.settle (.sqrt format.precision (.add (square a) (square b)))

/-- The number times a power of two. -/
def scale (a : Nat) (power : Int) : Nat :=
  format.settle (.multiply (.finite false 1 power) (format.decode a))

def halve (a : Nat) : Nat := format.scale a (-1)

-- ======================================================== complex numbers

/-- The product of two complex numbers, given by their parts; each of
the four products and both sums are rounded. -/
def multiplyComplex (a b : Nat × Nat) : Nat × Nat :=
  (format.subtract (format.multiply a.1 b.1) (format.multiply a.2 b.2),
   format.add (format.multiply a.1 b.2) (format.multiply a.2 b.1))

/-- The sum of two complex numbers. The second one is multiplied by the
complex number one before it is added, which leaves finite numbers as
they are, but for the sign of a zero. -/
def addComplex (a b : Nat × Nat) : Nat × Nat :=
  let one := format.encode (.ofInt 1)
  let b := format.multiplyComplex (one, 0) b
  (format.add a.1 b.1, format.add a.2 b.2)

/-- The pattern of the least normal number times a power of two. -/
def leastNormal (power : Nat) : Nat := (power + 1) <<< format.fractionBits

/-- A complex number with two parts that are not zero, multiplied by an
even power of two so that neither the length of it overflows nor its
digits are lost, and the power by which its root is to be multiplied
instead. -/
def balance (a : Nat × Nat) : (Nat × Nat) × Int :=
  let re := format.magnitude a.1
  let im := format.magnitude a.2
  let top := format.scale (format.infinityBits - 1) (-2)
  let power : Int := (format.fractionBits + 2) / 2
  if top < re then ((format.scale a.1 (-2), format.scale a.2 (-2)), 1)
  else if top < im then
    ((if format.leastNormal 2 ≤ re then format.scale a.1 (-2) else 0,
      format.scale a.2 (-2)), 1)
  else if re < format.leastNormal 1 && im < format.leastNormal 1 then
    ((format.scale a.1 (2 * power), format.scale a.2 (2 * power)), -power)
  else (a, 0)

/-- The magnitudes of the parts of the root of a complex number, the
larger one first. The part that would suffer from cancellation is
computed from the other one, whose product with it is half the imaginary
part. Where the imaginary part is small, it is not halved, and so does
not have to be doubled again. -/
def rootMagnitudes (a : Nat × Nat) (power : Int) : Nat × Nat :=
  let length := format.hypotenuse a.1 a.2
  let larger := format.sqrt (format.halve (format.add length (format.magnitude a.1)))
  let quotient := format.magnitude (format.divide a.2 larger)
  if power = 1 && format.magnitude a.2 < format.encode (.ofInt 2) then
    (format.scale larger power, quotient)
  else (format.scale larger power, format.scale (format.halve quotient) power)

/-- The principal square root of a complex number. -/
def sqrtComplex (a : Nat × Nat) : Nat × Nat :=
  let nan := format.nanBits
  match format.decode a.1, format.decode a.2 with
  | _, .infinite _ => (format.infinityBits, a.2)
  | .nan, _ => (nan, nan)
  | .infinite negative, y =>
      let undefined : Bool := y matches .nan
      if negative then
        (if undefined then nan else 0, format.copySign format.infinityBits a.2)
      else
        (format.infinityBits, if undefined then nan else format.copySign 0 a.2)
  | .finite .., .nan => (nan, nan)
  | .finite negative m _, .finite _ n _ =>
      if n = 0 then
        let root := format.sqrt (format.magnitude a.1)
        if negative && m ≠ 0 then (0, format.copySign root a.2)
        else (root, format.copySign 0 a.2)
      else if m = 0 then
        let im := format.magnitude a.2
        let root :=
          if format.leastNormal 1 ≤ im then format.sqrt (format.halve im)
          else format.halve (format.sqrt (format.scale im 1))
        (root, format.copySign root a.2)
      else
        let (b, power) := format.balance a
        let (larger, smaller) := format.rootMagnitudes b power
        if negative || b.1 = 0 then (smaller, format.copySign larger a.2)
        else (larger, format.copySign smaller a.2)

end BinaryFormat

-- =============================================================== elements

namespace Element

/-- The parts of a complex element. -/
def parts (format : BinaryFormat) (x : Nat) : Nat × Nat :=
  (x % (1 <<< format.width), x >>> format.width)

def ofParts (format : BinaryFormat) (x : Nat × Nat) : Nat :=
  x.2 <<< format.width + x.1

/-- The pattern of an integer, modulo the number of patterns. -/
def wrap (bits : Nat) (i : Int) : Nat := (i % (1 <<< bits : Nat)).toNat

/-- The integer that a pattern stands for. -/
def unwrap (signed : Bool) (bits : Nat) (x : Nat) : Int :=
  if signed && x.testBit (bits - 1) then (x : Int) - (1 <<< bits : Nat) else x

/-- The number that an element denotes, the real part of a complex
one. -/
def datum (dtype : DType) (x : Nat) : Datum :=
  match dtype.layout with
  | .boolean => .ofInt (if x = 0 then 0 else 1)
  | .integer signed bits => .ofInt (unwrap signed bits x)
  | .real format => format.decode x
  | .complex format => format.decode (parts format x).1

/-- The imaginary part of what an element denotes. -/
def imaginary (dtype : DType) (x : Nat) : Datum :=
  match dtype.layout with
  | .complex format => format.decode (parts format x).2
  | _ => .ofInt 0

/-- The integer part of a number as a signed integer of some bits; numbers
without one in that range all give the least integer. -/
def truncate (bits : Nat) (x : Datum) : Int :=
  let least : Int := -(1 <<< (bits - 1) : Nat)
  match x.truncate with
  | some i => if least ≤ i && i < -least then i else least
  | none => least

/-- The integer that an element denotes, its integer part as a signed
integer of some bits if it is fractional. -/
def toWord (bits : Nat) (dtype : DType) (x : Nat) : Int :=
  match dtype.layout with
  | .boolean => if x = 0 then 0 else 1
  | .integer signed bits => unwrap signed bits x
  | .real format => truncate bits (format.decode x)
  | .complex format => truncate bits (format.decode (parts format x).1)

/-- The integer that an element denotes, of 64 bits if it is
fractional. -/
def toInt (dtype : DType) (x : Nat) : Int := toWord 64 dtype x

/-- The bits of the signed integers through which fractional numbers get
to an integer type. Signed types and those of 16 bits go through 32 bits
unless they have more. -/
def wordBits : DType → Nat
  | .int8 | .int16 | .uint16 | .int32 => 32
  | _ => 64

/-- The element of type `target` for what `x` denotes in type
`source`. -/
def cast (source target : DType) (x : Nat) : Nat :=
  if source = target then x
  else
    match target.layout with
    | .boolean =>
        if (datum source x).isNonzero || (imaginary source x).isNonzero then 1 else 0
    | .integer _ bits => wrap bits (toWord (wordBits target) source x)
    | .real format => format.settle (datum source x)
    | .complex format =>
        ofParts format (format.settle (datum source x), format.settle (imaginary source x))

/-- Combines complex elements part by part in the working format, and
rounds the parts of the result. -/
def combineParts (format : BinaryFormat)
    (combine : BinaryFormat → Nat × Nat → Nat × Nat → Nat × Nat) (x y : Nat) : Nat :=
  let working := format.working
  let widen (x : Nat × Nat) : Nat × Nat :=
    (format.convert working x.1, format.convert working x.2)
  let (re, im) := combine working (widen (parts format x)) (widen (parts format y))
  ofParts format (working.convert format re, working.convert format im)

def add (dtype : DType) (x y : Nat) : Nat :=
  match dtype.layout with
  | .boolean => if x = 0 && y = 0 then 0 else 1
  | .integer _ bits => (x + y) % (1 <<< bits)
  | .real format => format.add x y
  | .complex format => combineParts format BinaryFormat.addComplex x y

def multiply (dtype : DType) (x y : Nat) : Nat :=
  match dtype.layout with
  | .boolean => if x = 0 || y = 0 then 0 else 1
  | .integer _ bits => (x * y) % (1 <<< bits)
  | .real format => format.multiply x y
  | .complex format => combineParts format BinaryFormat.multiplyComplex x y

/-- The element with the opposite sign. -/
def negate (dtype : DType) (x : Nat) : Nat :=
  let opposite (format : BinaryFormat) (x : Nat) : Nat :=
    format.encode (format.decode x).negate
  match dtype.layout with
  | .boolean => x
  | .integer _ bits => ((1 <<< bits) - x) % (1 <<< bits)
  | .real format => opposite format x
  | .complex format =>
      let (re, im) := parts format x
      ofParts format (opposite format re, opposite format im)

/-- The type of a square root: `float32` for integers and booleans, else
the type of the operand. -/
def sqrtType (dtype : DType) : DType :=
  if dtype.isDifferentiable then dtype else .float32

/-- The square root of an element of a real or complex type. Other
elements have to be cast to `sqrtType` before. -/
def sqrt (dtype : DType) (x : Nat) : Nat :=
  match dtype.layout with
  | .real format =>
      if format = .double && Root.isNormal x then Root.ofNormal x else format.sqrt x
  | .complex format => ofParts format (format.sqrtComplex (parts format x))
  | _ => x

end Element

end OnnxLowering
