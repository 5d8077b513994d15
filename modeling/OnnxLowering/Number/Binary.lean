/-
Binary floating point, exactly. A `BinaryFormat` is a pair of field
widths; an element of a format is its bit pattern, a natural number. A
pattern is read into a `Datum` (a sign, a significand and a power of
two, or one of the special values), arithmetic on data is exact, and
writing a datum back rounds once, to the nearest pattern, ties to the
even one.

Nothing here is approximate, so sums and products of every format are
correctly rounded by construction, and they compute in the kernel.
-/

namespace OnnxLowering

/-- A binary interchange format: one sign bit, then the exponent field,
then the fraction field. -/
structure BinaryFormat where
  exponentBits : Nat
  fractionBits : Nat
deriving DecidableEq, Repr

/-- What a bit pattern denotes. A finite datum is
`significand * 2 ^ exponent` with its sign kept apart, so that the two
zeros differ. -/
inductive Datum where
  | nan
  | infinite (negative : Bool)
  | finite (negative : Bool) (significand : Nat) (exponent : Int)
deriving DecidableEq, Repr

namespace BinaryFormat

def half : BinaryFormat := ⟨5, 10⟩
def brain : BinaryFormat := ⟨8, 7⟩
def single : BinaryFormat := ⟨8, 23⟩
def double : BinaryFormat := ⟨11, 52⟩

variable (format : BinaryFormat)

/-- The number of bits of a pattern. -/
def width : Nat := 1 + format.exponentBits + format.fractionBits

/-- The pattern of positive infinity: the exponent field full, the
fraction empty. -/
def infinityBits : Nat := ((1 <<< format.exponentBits) - 1) <<< format.fractionBits

/-- The quiet value that stands for every NaN. -/
def nanBits : Nat := format.infinityBits + (1 <<< (format.fractionBits - 1))

/-- The weight of the sign bit. -/
def signWeight : Nat := 1 <<< (format.exponentBits + format.fractionBits)

/-- The power of two that the last fraction bit of a subnormal number
stands for. No finite number of the format has a finer unit. -/
def leastExponent : Int := 2 - (1 <<< (format.exponentBits - 1) : Nat) - format.fractionBits

-- ======================================================== reading a pattern

/-- What the pattern `bits` denotes. Bits above the format's width are
not looked at. -/
def decode (bits : Nat) : Datum :=
  let negative := bits.testBit (format.exponentBits + format.fractionBits)
  let fraction := bits % (1 <<< format.fractionBits)
  let biased := bits >>> format.fractionBits % (1 <<< format.exponentBits)
  if biased = (1 <<< format.exponentBits) - 1 then
    if fraction = 0 then .infinite negative else .nan
  else if biased = 0 then
    .finite negative fraction format.leastExponent
  else
    .finite negative ((1 <<< format.fractionBits) + fraction)
      (format.leastExponent + (biased - 1))

-- ======================================================== writing a pattern

/-- The natural number nearest to `n / 2 ^ k`, the even one of two. -/
def roundShift (n k : Nat) : Nat :=
  let quotient := n >>> k
  let rest := n % (1 <<< k)
  let half := 1 <<< (k - 1)
  if k = 0 then n
  else if half < rest ∨ (rest = half ∧ quotient % 2 = 1) then quotient + 1
  else quotient

/-- The magnitude pattern nearest to `significand * 2 ^ exponent`. The
unit of the result is the coarser of the subnormal unit and the one
that leaves `fractionBits + 1` significant bits; counting those units
is the pattern itself, because a carry out of the fraction is an
increment of the exponent field. -/
def roundMagnitude (significand : Nat) (exponent : Int) : Nat :=
  if significand = 0 then 0
  else
    let top : Int := exponent + significand.log2 - format.fractionBits
    let unit := max format.leastExponent top
    let units :=
      if unit ≤ exponent then significand <<< (exponent - unit).toNat
      else roundShift significand (unit - exponent).toNat
    let bits := (unit - format.leastExponent).toNat <<< format.fractionBits + units
    min bits format.infinityBits

/-- The pattern nearest to a datum. -/
def encode : Datum → Nat
  | .nan => format.nanBits
  | .infinite negative =>
      format.infinityBits + if negative then format.signWeight else 0
  | .finite negative significand exponent =>
      format.roundMagnitude significand exponent
        + if negative then format.signWeight else 0

/-- The pattern of `target` nearest to what `bits` denotes in
`format`. -/
def convert (target : BinaryFormat) (bits : Nat) : Nat :=
  target.encode (format.decode bits)

end BinaryFormat

-- ========================================================== exact arithmetic

namespace Datum

/-- An integer as a datum. -/
def ofInt (i : Int) : Datum := .finite (decide (i < 0)) i.natAbs 0

def isNegative : Datum → Bool
  | .nan => false
  | .infinite negative => negative
  | .finite negative _ _ => negative

/-- Neither zero of either sign nor anything that compares equal to
it. -/
def isNonzero : Datum → Bool
  | .finite _ significand _ => significand ≠ 0
  | _ => true

def negate : Datum → Datum
  | .nan => .nan
  | .infinite negative => .infinite !negative
  | .finite negative significand exponent => .finite (!negative) significand exponent

/-- The significand of a finite datum, signed and counted in units of
`2 ^ unit`, for a `unit` that is no coarser than its own. -/
private def units (negative : Bool) (significand : Nat) (exponent unit : Int) : Int :=
  let magnitude : Int := (significand <<< (exponent - unit).toNat : Nat)
  if negative then -magnitude else magnitude

/-- The exact sum. Opposite infinities have none, and a sum of zero is
positive unless both summands are negative zeros. -/
def add : Datum → Datum → Datum
  | .nan, _ => .nan
  | _, .nan => .nan
  | .infinite s, .infinite t => if s = t then .infinite s else .nan
  | .infinite s, .finite .. => .infinite s
  | .finite .., .infinite t => .infinite t
  | .finite s m e, .finite t n f =>
      let unit := min e f
      let sum := units s m e unit + units t n f unit
      if sum = 0 then .finite (s && t) 0 unit
      else .finite (decide (sum < 0)) sum.natAbs unit

def subtract (x y : Datum) : Datum := add x (negate y)

/-- The exact product. Zero times infinity has none. -/
def multiply : Datum → Datum → Datum
  | .nan, _ => .nan
  | _, .nan => .nan
  | .infinite s, .infinite t => .infinite (s != t)
  | .infinite s, .finite t n _ => if n = 0 then .nan else .infinite (s != t)
  | .finite s m _, .infinite t => if m = 0 then .nan else .infinite (s != t)
  | .finite s m e, .finite t n f => .finite (s != t) (m * n) (e + f)

/-- The largest `r` with `r * r ≤ n`, given that `r` has at most `bits`
bits: the bits are decided from the top. -/
private def rootBits (n : Nat) : Nat → Nat → Nat
  | 0, found => found
  | bit + 1, found =>
      let candidate := found + (1 <<< bit)
      rootBits n bit (if candidate * candidate ≤ n then candidate else found)

/-- The integer square root. -/
def floorSqrt (n : Nat) : Nat := rootBits n (n.log2 / 2 + 1) 0

/-- The square root, to at least `precision` correct bits and one more
that is set if anything is left over: writing the result to a format of
fewer than `precision` bits then rounds as the exact root would. -/
def sqrt (precision : Nat) : Datum → Datum
  | .nan => .nan
  | .infinite negative => if negative then .nan else .infinite false
  | .finite negative significand exponent =>
      if significand = 0 then .finite negative 0 exponent
      else if negative then .nan
      else
        let shift := 2 * precision + (exponent % 2).toNat
        let scaled := significand <<< shift
        let root := floorSqrt scaled
        let rest := if root * root = scaled then 0 else 1
        .finite false (2 * root + rest) ((exponent - shift) / 2 - 1)

/-- `numerator / denominator`, to at least `precision` correct bits and
one more that is set if anything is left over. -/
def ratio (precision : Nat) (negative : Bool) (numerator denominator : Nat)
    (exponent : Int) : Datum :=
  let shift := precision + denominator.log2 + 1 - numerator.log2
  let scaled := numerator <<< shift
  let rest := if scaled % denominator = 0 then 0 else 1
  .finite negative (2 * (scaled / denominator) + rest) (exponent - shift - 1)

/-- The quotient, in the same sense as `ratio`. -/
def divide (precision : Nat) : Datum → Datum → Datum
  | .nan, _ => .nan
  | _, .nan => .nan
  | .infinite _, .infinite _ => .nan
  | .infinite s, .finite t _ _ => .infinite (s != t)
  | .finite s _ _, .infinite t => .finite (s != t) 0 0
  | .finite s m e, .finite t n f =>
      if n = 0 then (if m = 0 then .nan else .infinite (s != t))
      else ratio precision (s != t) m n (e - f)

/-- The integer part, toward zero; `none` for what has none. -/
def truncate : Datum → Option Int
  | .finite negative significand exponent =>
      let magnitude : Nat :=
        if 0 ≤ exponent then significand <<< exponent.toNat
        else significand >>> (-exponent).toNat
      some (if negative then -magnitude else magnitude)
  | _ => none

/-- The integer part, toward minus infinity; `none` for what has
none. -/
def floor : Datum → Option Int
  | .finite negative significand exponent =>
      let signed : Int := if negative then -significand else significand
      some (if 0 ≤ exponent then signed * (1 <<< exponent.toNat : Nat)
        else signed / (1 <<< (-exponent).toNat : Nat))
  | _ => none

/-- The number `digits * 10 ^ exponent`, exactly where the exponent is
not negative, else in the sense of `ratio`. Exponents beyond any format
are cut off first, so that no power of ten is computed for them. -/
def ofDecimal (negative : Bool) (digits : Nat) (exponent : Int) : Datum :=
  let magnitude : Int := digits.log2 * 3 / 10 + exponent
  if digits = 0 then .finite negative 0 0
  else if 400 < magnitude then .infinite negative
  else if magnitude < -1000 then .finite negative 0 0
  else if 0 ≤ exponent then .finite negative (digits * Nat.pow 10 exponent.toNat) 0
  else ratio 64 negative digits (Nat.pow 10 (-exponent).toNat) 0

end Datum

end OnnxLowering
