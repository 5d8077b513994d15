/-
Square roots of doubles. They are computed from an estimate of the
reciprocal root that is good for 14 bits, in two steps: one improves the
estimate and the root together, the other corrects the root by what its
square still lacks. Each multiply-add is rounded once. The result is
within one unit of the last place, and most often, but not always, the
nearest double.

The estimate is piecewise linear: of the numbers from 1 to 4, each
binade has 32 pieces, and a piece has 1024 positions, which are all that
the estimate sees of its argument.
-/
import OnnxLowering.Number.Binary

namespace OnnxLowering.Root

-- ================================================================== estimate

/-- For each piece the estimate at its start, in units of `2^-19`, and
what it loses per position, in units of `2^-26`. -/
def pieces : List (Nat × Nat) :=
  [(524265, 1001), (516257, 955), (508613, 915), (501298, 877), (494286, 841),
   (487559, 807), (481101, 775), (474897, 747), (468922, 719), (463169, 693),
   (457623, 669), (452276, 647), (447106, 625), (442106, 603), (437279, 585),
   (432603, 567), (428071, 549), (423683, 533), (419423, 517), (415288, 501),
   (411277, 487), (407379, 473), (403592, 461), (399907, 449), (396319, 437),
   (392827, 425), (389430, 415), (386110, 403), (382879, 393), (379734, 385),
   (376655, 375), (373658, 367), (370709, 707), (365049, 675), (359644, 647),
   (354468, 619), (349516, 595), (344759, 571), (340193, 549), (335801, 527),
   (331581, 509), (327515, 491), (323589, 473), (319805, 457), (316149, 441),
   (312618, 427), (309201, 413), (305899, 401), (302695, 389), (299587, 377),
   (296575, 365), (293657, 355), (290819, 345), (288062, 335), (285380, 325),
   (282776, 317), (280242, 309), (277773, 301), (275367, 293), (273022, 285),
   (270741, 279), (268509, 271), (266336, 265), (264214, 259)]

/-- The bits of a position in its binade. -/
def positionBits : Nat := 15

/-- The bits of a position in its piece. -/
def offsetBits : Nat := 10

/-- The estimate of the reciprocal root at a position of a binade, the
lower one (`upper = 0`) or the upper one (`upper = 1`), in units of
`2^-17`. -/
def estimateAt (upper position : Nat) : Nat :=
  let (start, slope) :=
    pieces.getD ((1 <<< (positionBits - offsetBits)) * upper + position >>> offsetBits) (0, 0)
  (start * 128 - slope * (position % (1 <<< offsetBits))) / 512

/-- The estimate for a double from 1 up to 4, by the fraction bits of the
double. The reciprocal root of 1 itself is exact. -/
def estimate (upper fraction : Nat) : Datum :=
  if upper = 0 && fraction = 0 then .ofInt 1
  else .finite false (estimateAt upper (fraction >>> (52 - positionBits))) (-17)

-- ================================================================ refinement

/-- The nearest double. -/
def rounded (x : Datum) : Datum := BinaryFormat.double.decode (BinaryFormat.double.encode x)

/-- A product and a sum, rounded once. -/
def multiplyAdd (x y z : Datum) : Datum := rounded (.add (.multiply x y) z)

def half : Datum := .finite false 1 (-1)

/-- The root of a number, from an estimate of its reciprocal root. -/
def refine (x estimate : Datum) : Datum :=
  let root := rounded (.multiply x estimate)
  let slope := rounded (.multiply estimate half)
  let lack := multiplyAdd (.negate root) slope half
  let slope := multiplyAdd slope lack slope
  let root := multiplyAdd root lack root
  let lack := multiplyAdd (.negate root) root x
  multiplyAdd lack slope root

/-- The root of a positive normal double, given as a pattern. The
argument is scaled by a power of 4 to lie between 1 and 4. -/
def ofNormal (bits : Nat) : Nat :=
  let format := BinaryFormat.double
  let fraction := bits % (1 <<< format.fractionBits)
  let exponent : Int := (bits >>> format.fractionBits : Nat) - 1023
  let upper := (exponent % 2).toNat
  let x : Datum := .finite false ((1 <<< format.fractionBits) + fraction) (upper - 52)
  let root := refine x (estimate upper fraction)
  format.encode (.multiply root (.finite false 1 (exponent.fdiv 2)))

/-- Whether a pattern is that of a positive normal double. -/
def isNormal (bits : Nat) : Bool :=
  let format := BinaryFormat.double
  1 <<< format.fractionBits ≤ bits && bits < format.infinityBits

end OnnxLowering.Root
