/-
Element types. A `DType` names what the elements of a tensor are; its
`layout` says how an element's bit pattern is read. Types are ranked in
four categories (boolean, integer, real, complex), and the type of a
mixed operation is decided first by category and then by size.
-/
import OnnxLowering.Number.Binary

namespace OnnxLowering

inductive DType where
  | bool
  | uint8 | int8 | uint16 | int16 | uint32 | int32 | uint64 | int64
  | float16 | bfloat16 | float32 | float64
  | complex32 | complex64 | complex128
deriving DecidableEq, Repr

/-- How the bit pattern of an element is read. A complex element holds
its real part in the low half and its imaginary part in the high
half. -/
inductive Layout where
  | boolean
  | integer (signed : Bool) (bits : Nat)
  | real (format : BinaryFormat)
  | complex (format : BinaryFormat)
deriving DecidableEq, Repr

namespace DType

def layout : DType → Layout
  | bool => .boolean
  | uint8 => .integer false 8
  | int8 => .integer true 8
  | uint16 => .integer false 16
  | int16 => .integer true 16
  | uint32 => .integer false 32
  | int32 => .integer true 32
  | uint64 => .integer false 64
  | int64 => .integer true 64
  | float16 => .real .half
  | bfloat16 => .real .brain
  | float32 => .real .single
  | float64 => .real .double
  | complex32 => .complex .half
  | complex64 => .complex .single
  | complex128 => .complex .double

/-- The number of bytes of one element. -/
def byteWidth (dtype : DType) : Nat :=
  match dtype.layout with
  | .boolean => 1
  | .integer _ bits => bits / 8
  | .real format => format.width / 8
  | .complex format => format.width / 4

def isReal (dtype : DType) : Bool := dtype.layout matches .real _
def isComplex (dtype : DType) : Bool := dtype.layout matches .complex _
def isInteger (dtype : DType) : Bool := dtype.layout matches .integer ..

/-- The types whose tensors can be trained. -/
def isDifferentiable (dtype : DType) : Bool := dtype.isReal || dtype.isComplex

/-- Unsigned types wider than a byte are made to be stored. They can be
multiplied, but there are no sums of them, and besides themselves only
real types have a common type with them. -/
def isStorageOnly : DType → Bool
  | uint16 | uint32 | uint64 => true
  | _ => false

/-- The element type that a numeric code of the exchange format stands
for; codes of strings and unknown codes stand for none. -/
def ofStorageCode : Int → Option DType
  | 1 => some float32
  | 2 => some uint8
  | 3 => some int8
  | 4 => some uint16
  | 5 => some int16
  | 6 => some int32
  | 7 => some int64
  | 9 => some bool
  | 10 => some float16
  | 11 => some float64
  | 12 => some uint32
  | 13 => some uint64
  | 14 => some complex64
  | 15 => some complex128
  | 16 => some bfloat16
  | _ => none

/-- The element type that a declared value may have. Storage-only types
are not among them: a value declared with such a code has no known
type. -/
def ofCode (code : Int) : Option DType :=
  (ofStorageCode code).filter fun dtype => !dtype.isStorageOnly

/-- The complex type whose parts are of the given real type. The brain
format has none. -/
def toComplex? : DType → Option DType
  | float16 => some complex32
  | float32 => some complex64
  | float64 => some complex128
  | _ => none

/-- The type of the parts of a complex type. -/
def part : DType → DType
  | complex32 => float16
  | complex64 => float32
  | complex128 => float64
  | dtype => dtype

-- =========================================================== common types

/-- The category of a type: boolean, integer, real or complex. -/
def category (dtype : DType) : Nat :=
  match dtype.layout with
  | .boolean => 0
  | .integer .. => 1
  | .real _ => 2
  | .complex _ => 3

/-- The common type of two different integer types that are not
storage-only: the wider one, if it can hold the values of both, else the
next signed type. -/
private def commonInteger (a b : DType) : DType :=
  if a.byteWidth < b.byteWidth then b
  else if b.byteWidth < a.byteWidth then a
  else int16

/-- The common type of two different real types: the wider one, and
`float32` for the two kinds of half precision. -/
private def commonReal (a b : DType) : DType :=
  if a.byteWidth < b.byteWidth then b
  else if b.byteWidth < a.byteWidth then a
  else float32

/-- The common type of a real type and a complex one, or of two complex
ones, by the types of the parts. -/
private def commonComplex (a b : DType) : Option DType :=
  (commonReal a.part b.part).toComplex?

/-- The type of an operation on operands of types `a` and `b` that both
have dimensions, or both have none. -/
def promote (a b : DType) : Option DType :=
  if a = b then some a
  else if a.isStorageOnly || b.isStorageOnly then
    if a.isReal then some a else if b.isReal then some b else none
  else if a.isComplex && (b.isReal || b.isComplex) || b.isComplex && a.isReal then
    commonComplex a b
  else if a.category < b.category then some b
  else if b.category < a.category then some a
  else if a.isInteger then some (commonInteger a b)
  else some (commonReal a b)

/-- The type of an operation on an operand of type `a` that has
dimensions and one of type `b` that has none: the second takes part in
the choice only where its category is higher. -/
def promoteScalar (a b : DType) : Option DType :=
  if b.category ≤ a.category then some a
  else if a.isReal then a.toComplex?
  else promote a b

end DType

end OnnxLowering
