/-
Reading stored tensors. The elements are stored as bytes, or in a field
for their kind of type, where the narrow integers share the field of the
32-bit ones; they have to be as many as the dimensions say. One
dimension may be negative and is then found out from their number.
Strings and numbers of a byte or less can be stored, but no tensor holds
them.
-/
import OnnxLowering.Graph.Basic
import OnnxLowering.Tensor.Basic

namespace OnnxLowering

/-- Why a stored tensor cannot be read. -/
inductive PayloadError where
  /-- The element type is left undefined. -/
  | undefinedType
  /-- A code that stands for no element type. -/
  | unknownType (code : Int)
  /-- Elements that are strings. -/
  | textElements
  /-- Elements of the brain format, which are stored but never read as
  the data of a graph. -/
  | brainElements
  /-- Elements that are real numbers of a byte or less, or integers of less
  than a byte. -/
  | smallElements
  /-- Another number of elements than the dimensions say. -/
  | elementCount
deriving DecidableEq, Repr

namespace Payload

/-- The code of string elements. -/
def textCode : Int := 8

/-- The codes of real numbers of one byte. -/
def byteCodes : List Int := [17, 18, 19, 20, 24]

/-- The codes of numbers of which a byte holds more than one. -/
def packedCodes : List Int := [21, 22, 23, 25, 26]

/-- The number that a list of bytes stands for, the lowest byte
first. -/
def ofLittleEndian (bytes : List UInt8) : Nat :=
  bytes.foldr (fun byte n => byte.toNat + 256 * n) 0

/-- The bytes in groups of `width`; the last group may be shorter. -/
def chunks (width : Nat) (bytes : List UInt8) : List (List UInt8) :=
  (List.range ((bytes.length + width - 1) / width)).map fun i =>
    (bytes.drop (i * width)).take width

/-- Two consecutive patterns each as the parts of one complex element;
`none` if one is left over. -/
def pairUp? (format : BinaryFormat) : List Nat → Option (List Nat)
  | [] => some []
  | re :: im :: rest => (pairUp? format rest).map (Element.ofParts format (re, im) :: ·)
  | [_] => none

/-- The elements of an integer or boolean type that integers are stored
as. Of a boolean the low byte counts. -/
def ofIntegers (dtype : DType) (values : List Int) : List Nat :=
  values.map fun i =>
    match dtype.layout with
    | .boolean => if Element.wrap 8 i = 0 then 0 else 1
    | .integer _ bits => Element.wrap bits i
    | .real format => Element.wrap format.width i
    | .complex _ => 0

/-- Whether the field for the integers of a type can hold an integer. -/
def fieldHolds (dtype : DType) (i : Int) : Bool :=
  match dtype with
  | .int64 => Shape.isWord i
  | .uint32 | .uint64 => 0 ≤ i && i < 0x10000000000000000
  | _ => -0x80000000 ≤ i && i < 0x80000000

/-- The elements that the content stores. -/
def elements? (dtype : DType) : Content → Option (List Nat)
  | .bytes bytes =>
      let groups := chunks dtype.byteWidth bytes
      if bytes.length % dtype.byteWidth ≠ 0 then none
      else some (groups.map fun group =>
        match dtype.layout with
        | .boolean => if ofLittleEndian group = 0 then 0 else 1
        | _ => ofLittleEndian group)
  | .integers values =>
      if values.all (fieldHolds dtype) then some (ofIntegers dtype values) else none
  | .patterns values =>
      match dtype.layout with
      | .complex format => pairUp? format values
      | _ => some values
  | .texts _ => none

/-- The dimensions, a negative one left open. -/
def openDims (dims : List Int) : List (Option Nat) :=
  dims.map fun d => if d < 0 then none else some d.toNat

/-- The most dimensions that a stored tensor can have. -/
def rankLimit : Nat := 64

/-- The shape of a number of stored elements of a width. Even if there are
no elements, the other sizes together must not come to more bytes than
64-bit integers can count. -/
def shape? (count width : Nat) (dims : List Int) : Option Shape := do
  let shape ← Shape.infer? count (openDims dims)
  if rankLimit < shape.length then none
  if 0x8000000000000000 ≤ Shape.size (shape.filter (· ≠ 0)) * width then none
  return shape

/-- The tensor with the given elements, if they are as many as the
dimensions say. -/
def assemble (dtype : DType) (dims : List Int) (data : List Nat) :
    Except PayloadError Tensor :=
  match (shape? data.length dtype.byteWidth dims).bind (Tensor.ofData? dtype · data) with
  | some tensor => .ok tensor
  | none => .error .elementCount

/-- The number of strings that the content stores, which are never bytes. -/
def textCount : Content → Nat
  | .texts values => values.length
  | _ => 0

/-- The number of elements of one byte that the content stores. -/
def byteCount : Content → Nat
  | .bytes bytes => bytes.length
  | .integers values => values.length
  | _ => 0

/-- The bytes of a reference to a string. -/
def textWidth : Nat := 8

/-- Refuses stored elements that no tensor holds, which nevertheless have
to be as many as the dimensions say. -/
def refuse (error : PayloadError) (count width : Nat) (dims : List Int) :
    Except PayloadError Tensor :=
  match shape? count width dims with
  | some _ => .error error
  | none => .error .elementCount

/-- The tensor that is stored, elements of the brain format included. -/
def read (payload : Payload) : Except PayloadError Tensor :=
  let code := payload.elementCode
  if code = 0 then .error .undefinedType
  else if code = textCode then
    refuse .textElements (textCount payload.content) textWidth payload.dims
  else if byteCodes.contains code then
    refuse .smallElements (byteCount payload.content) 1 payload.dims
  else if packedCodes.contains code then .error .smallElements
  else
    match DType.ofStorageCode code with
    | none => .error (.unknownType code)
    | some dtype =>
        match elements? dtype payload.content with
        | none => .error .elementCount
        | some data => assemble dtype payload.dims data

/-- The tensor that is stored, as data of a graph. -/
def toTensor (payload : Payload) : Except PayloadError Tensor := do
  let tensor ← payload.read
  if tensor.dtype = .bfloat16 then throw .brainElements
  return tensor

end Payload

end OnnxLowering
