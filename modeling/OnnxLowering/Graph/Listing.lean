/-
Stored tensors as text. A listing has one line per field, in the order
of the fields, and per entry of a field that is a list.
-/
import OnnxLowering.Graph.Basic
import OnnxLowering.Number.Significant

namespace OnnxLowering.Payload

/-- A byte between quotes: quotes, backslashes and control characters are
escaped, and what is no ASCII character as well. -/
def listByte (byte : UInt8) : String :=
  match Char.ofNat byte.toNat with
  | '\n' => "\\n"
  | '\r' => "\\r"
  | '\t' => "\\t"
  | '"' => "\\\""
  | '\'' => "\\'"
  | '\\' => "\\\\"
  | c =>
      if 32 ≤ byte && byte < 127 then String.ofList [c]
      else
        let digits := Nat.toDigits 8 byte.toNat
        String.ofList ('\\' :: List.replicate (3 - digits.length) '0' ++ digits)

/-- Bytes between quotes. -/
def listBytes (bytes : List UInt8) : String :=
  "\"" ++ String.join (bytes.map listByte) ++ "\""

/-- The entries of a field, one per line. -/
def listField (name : String) (entries : List String) : String :=
  String.join (entries.map fun entry => name ++ ": " ++ entry ++ "\n")

/-- The field for the integers of an element type. -/
def integerField (code : Int) : String :=
  if code = 7 then "int64_data"
  else if code = 12 || code = 13 then "uint64_data"
  else "int32_data"

/-- The field with the elements. -/
def listContent (code : Int) : Content → String
  | .bytes bytes => listField "raw_data" [listBytes bytes]
  | .integers values => listField (integerField code) (values.map toString)
  | .patterns values =>
      if code = 1 || code = 14 then
        listField "float_data" (values.map (Significant.render .single))
      else listField "double_data" (values.map (Significant.render .double))
  | .texts values =>
      listField "string_data" (values.map fun text => listBytes text.toUTF8.toList)

/-- All fields of a stored tensor. -/
def listing (payload : Payload) : String :=
  listField "dims" (payload.dims.map toString)
    ++ listField "data_type" [toString payload.elementCode]
    ++ listContent payload.elementCode payload.content

end OnnxLowering.Payload
