/-
Attributes as values. A node's attributes are read into a map in which
the last one of a name counts; graphs are left out, single-precision
numbers are widened, and texts are decoded. Handlers then ask an
attribute for the kind of value that they need, and most kinds can be
read as one another: a number as an integer, a text as the number that
it spells, a list of numbers as a list of integers.
-/
import OnnxLowering.Graph.Basic
import OnnxLowering.Graph.Listing
import OnnxLowering.NameMap
import OnnxLowering.Number.Shortest
import OnnxLowering.Tensor.Basic
import OnnxLowering.Text.Numeral

namespace OnnxLowering

/-- Why an attribute cannot be read as asked. -/
inductive AttributeError where
  /-- Bytes that are no text. -/
  | notText
  /-- A kind of value that does not have the other kind. -/
  | wrongKind
  /-- Text that spells no number, or something that is not a number and
  has no integer part. -/
  | notNumber
  /-- An infinite number, which has no integer part. -/
  | infinite
  /-- A number beyond the integers of 64 bits. -/
  | outOfRange
deriving DecidableEq, Repr

/-- The value of an attribute. Numbers are patterns of the double
format. -/
inductive AttributeValue where
  | int (value : Int)
  | number (pattern : Nat)
  | text (text : String)
  | tensor (payload : Payload)
  | ints (values : List Int)
  | numbers (patterns : List Nat)
  | byteStrings (values : List (List UInt8))
deriving DecidableEq, Repr

abbrev Attributes := NameMap AttributeValue

-- ================================================================== reading

/-- The text that bytes encode. -/
def decodeText (bytes : List UInt8) : Except AttributeError String :=
  match String.fromUTF8? ⟨bytes.toArray⟩ with
  | some text => .ok text
  | none => .error .notText

/-- A single-precision number as a pattern of the double format. -/
def widen (pattern : Nat) : Nat := BinaryFormat.single.convert .double pattern

/-- The value of an attribute; a graph has none. -/
def AttributeOf.value? {G : Type} (a : AttributeOf G) :
    Except AttributeError (Option AttributeValue) :=
  match a with
  | .int value => .ok (some (.int value))
  | .float pattern => .ok (some (.number (widen pattern)))
  | .text bytes => (decodeText bytes).map (some ∘ .text)
  | .tensor payload => .ok (some (.tensor payload))
  | .graph _ | .graphs _ => .ok none
  | .ints values => .ok (some (.ints values))
  | .floats patterns => .ok (some (.numbers (patterns.map widen)))
  | .texts values => .ok (some (.byteStrings values))

/-- The attributes of a node that are no graphs. -/
def NodeOf.values {G : Type} (node : NodeOf G) : Except AttributeError Attributes :=
  node.attributes.foldlM
    (fun values (name, a) => do
      match ← a.value? with
      | some value => return values.insert name value
      | none => return values)
    .empty

namespace AttributeValue

/-- The integer part of a number. -/
def integerPart (pattern : Nat) : Except AttributeError Int :=
  let datum := BinaryFormat.double.decode pattern
  match datum, datum.truncate with
  | _, some i => .ok i
  | .nan, none => .error .notNumber
  | _, none => .error .infinite

/-- The integer that a text spells. -/
def integerText (text : String) : Except AttributeError Int :=
  match Numeral.int? text with
  | some i => .ok i
  | none => .error .notNumber

/-- The value as an integer. -/
def toInt : AttributeValue → Except AttributeError Int
  | int value => .ok value
  | number pattern => integerPart pattern
  | text s => integerText s
  | _ => .error .wrongKind

/-- The value as a number. -/
def toNumber : AttributeValue → Except AttributeError Nat
  | int value => .ok (BinaryFormat.double.encode (.ofInt value))
  | number pattern => .ok pattern
  | text s =>
      match Numeral.decimal? s with
      | some datum => .ok (BinaryFormat.double.encode datum)
      | none => .error .notNumber
  | _ => .error .wrongKind

/-- The text of bytes all of which are ASCII characters. -/
def asciiText (bytes : List UInt8) : Except AttributeError String :=
  if bytes.all (· < 128) then
    .ok (String.ofList (bytes.map fun byte => Char.ofNat byte.toNat))
  else .error .notNumber

/-- The value as a list of integers; a text is a list of digits. -/
def toInts : AttributeValue → Except AttributeError (List Int)
  | ints values => .ok values
  | numbers patterns => patterns.mapM integerPart
  | text s => s.toList.mapM fun c => integerText (String.ofList [c])
  | byteStrings values => values.mapM fun bytes => do integerText (← asciiText bytes)
  | _ => .error .wrongKind

-- ====================================================== tensors from numbers

/-- An integer as a single-precision element. It is rounded to the
double format on the way. -/
def singleOfInt (i : Int) : Nat :=
  BinaryFormat.double.convert .single (BinaryFormat.double.encode (.ofInt i))

/-- The integer part of a number, if it fits 64 bits. -/
def int64OfNumber (pattern : Nat) : Except AttributeError Int :=
  match (BinaryFormat.double.decode pattern).truncate with
  | some i => if -0x8000000000000000 ≤ i && i < 0x8000000000000000 then .ok i else .error .outOfRange
  | none => .error .outOfRange

/-- Byte strings as rows of numbers, one per byte. The first row decides
on the length of the others. -/
def byteTensor (dtype : DType) (element : Int → Nat) (rows : List (List UInt8)) :
    Except AttributeError Tensor :=
  match rows with
  | [] => .ok (.vector dtype [])
  | first :: _ =>
      if first.length ≠ 0 && rows.any (·.length ≠ first.length) then .error .notNumber
      else
        .ok <| .ofFn dtype [rows.length, first.length] fun is =>
          element ((rows.getD (is.getD 0 0) []).getD (is.getD 1 0) 0).toNat

/-- Numbers as a `float32` tensor; a single number has no dimension. -/
def toFloatTensor : AttributeValue → Except AttributeError Tensor
  | int value => .ok (.scalar .float32 (singleOfInt value))
  | number pattern => .ok (.scalar .float32 (BinaryFormat.double.convert .single pattern))
  | ints values => .ok (.vector .float32 (values.map singleOfInt))
  | numbers patterns =>
      .ok (.vector .float32 (patterns.map (BinaryFormat.double.convert .single)))
  | byteStrings values => byteTensor .float32 singleOfInt values
  | _ => .error .wrongKind

/-- Numbers as an `int64` tensor; a single number has no dimension. -/
def toIntTensor : AttributeValue → Except AttributeError Tensor
  | int value => .ok (.scalar .int64 (Element.wrap 64 value))
  | number pattern => do return .scalar .int64 (Element.wrap 64 (← int64OfNumber pattern))
  | ints values => .ok (.vector .int64 (values.map (Element.wrap 64)))
  | numbers patterns => do
      return .vector .int64 ((← patterns.mapM int64OfNumber).map (Element.wrap 64))
  | byteStrings values => byteTensor .int64 (Element.wrap 64) values
  | _ => .error .wrongKind

-- ================================================================= printing

/-- A byte in a quoted byte string. -/
def renderByte (quote : Char) (byte : UInt8) : String :=
  let c := Char.ofNat byte.toNat
  if c = quote || c = '\\' then String.ofList ['\\', c]
  else if c = '\t' then "\\t"
  else if c = '\n' then "\\n"
  else if c = '\r' then "\\r"
  else if 32 ≤ byte && byte < 127 then String.ofList [c]
  else
    let digit (n : Nat) : Char := ("0123456789abcdef".toList[n]?).getD '0'
    String.ofList ['\\', 'x', digit (byte.toNat / 16), digit (byte.toNat % 16)]

/-- A quoted byte string. The quotes are double only where that saves
escapes. -/
def renderBytes (bytes : List UInt8) : String :=
  let quote := Char.ofNat (if bytes.contains 39 && !bytes.contains 34 then 34 else 39)
  let body := String.join (bytes.map (renderByte quote))
  "b" ++ String.ofList [quote] ++ body ++ String.ofList [quote]

/-- A list in brackets. -/
def renderList (items : List String) : String := "[" ++ ", ".intercalate items ++ "]"

/-- How a value is shown in a message. -/
def render : AttributeValue → String
  | int value => toString value
  | number pattern => Shortest.render pattern
  | text s => s
  | tensor payload => payload.listing
  | ints values => renderList (values.map toString)
  | numbers patterns => renderList (patterns.map Shortest.render)
  | byteStrings values => renderList (values.map renderBytes)

end AttributeValue

end OnnxLowering
