/-
Numbers in text. Attributes of the exchange format may spell a number as
a string. An integer is a sign and decimal digits; a decimal number also
has a point, an exponent, or one of the words for the special values.
Blanks around it do not matter, single underscores may stand between
digits, and the decimal digits of every script count.
-/
import OnnxLowering.Number.Binary

namespace OnnxLowering.Numeral

/-- The zero of every run of ten decimal digits in the character set. -/
def zeros : List Nat :=
  [0x30, 0x660, 0x6f0, 0x7c0, 0x966, 0x9e6, 0xa66, 0xae6, 0xb66, 0xbe6, 0xc66, 0xce6,
   0xd66, 0xde6, 0xe50, 0xed0, 0xf20, 0x1040, 0x1090, 0x17e0, 0x1810, 0x1946, 0x19d0,
   0x1a80, 0x1a90, 0x1b50, 0x1bb0, 0x1c40, 0x1c50, 0xa620, 0xa8d0, 0xa900, 0xa9d0,
   0xa9f0, 0xaa50, 0xabf0, 0xff10, 0x104a0, 0x10d30, 0x11066, 0x110f0, 0x11136,
   0x111d0, 0x112f0, 0x11450, 0x114d0, 0x11650, 0x116c0, 0x11730, 0x118e0, 0x11950,
   0x11c50, 0x11d50, 0x11da0, 0x16a60, 0x16ac0, 0x16b50, 0x1d7ce, 0x1d7d8,
   0x1d7e2, 0x1d7ec, 0x1d7f6, 0x1e140, 0x1e2f0, 0x1e950, 0x1fbf0]

/-- The characters that may stand around a number. -/
def blanks : List Nat :=
  [0x9, 0xa, 0xb, 0xc, 0xd, 0x20, 0x85, 0xa0, 0x1680, 0x2000, 0x2001, 0x2002, 0x2003,
   0x2004, 0x2005, 0x2006, 0x2007, 0x2008, 0x2009, 0x200a, 0x2028, 0x2029, 0x202f,
   0x205f, 0x3000]

/-- The most digits that an integer may be written with. -/
def digitLimit : Nat := 4300

def isBlank (c : Char) : Bool := blanks.contains c.toNat

/-- The value of a decimal digit. -/
def digit? (c : Char) : Option Nat :=
  (zeros.find? fun first => first ≤ c.toNat && c.toNat < first + 10).map (c.toNat - ·)

-- ============================================================ recognition

/-- The digits that go on after a first one, and what comes after
them. -/
def moreDigits : List Char → List Nat × List Char
  | [] => ([], [])
  | '_' :: c :: rest =>
      match digit? c with
      | some d => let (digits, after) := moreDigits rest; (d :: digits, after)
      | none => ([], '_' :: c :: rest)
  | c :: rest =>
      match digit? c with
      | some d => let (digits, after) := moreDigits rest; (d :: digits, after)
      | none => ([], c :: rest)

/-- The digits at the start, none if there is no digit. -/
def digits (chars : List Char) : List Nat × List Char :=
  match chars with
  | '_' :: _ => ([], chars)
  | _ => moreDigits chars

/-- A sign at the start: whether it is a minus, and what comes after
it. -/
def sign : List Char → Bool × List Char
  | '-' :: rest => (true, rest)
  | '+' :: rest => (false, rest)
  | rest => (false, rest)

def value (digits : List Nat) : Nat := digits.foldl (fun n d => 10 * n + d) 0

/-- The characters between the blanks around them. -/
def trim (chars : List Char) : List Char :=
  ((chars.dropWhile isBlank).reverse.dropWhile isBlank).reverse

/-- The integer that a text writes, if it writes one. -/
def int? (text : String) : Option Int :=
  let (negative, body) := sign (trim text.toList)
  match digits body with
  | ([], _) => none
  | (ds, []) =>
      if digitLimit < ds.length then none
      else some (if negative then -(value ds : Int) else value ds)
  | _ => none

/-- The exponent at the start, zero if there is none. -/
def exponent (chars : List Char) : Int × List Char :=
  match chars with
  | c :: rest =>
      if c = 'e' || c = 'E' then
        let (negative, body) := sign rest
        match digits body with
        | ([], _) => (0, chars)
        | (ds, after) => (if negative then -(value ds : Int) else value ds, after)
      else (0, chars)
  | [] => (0, [])

/-- The digits of a fraction after a point at the start. -/
def fraction : List Char → List Nat × List Char
  | '.' :: rest => digits rest
  | rest => ([], rest)

/-- The number that a text writes, if it writes one. -/
def decimal? (text : String) : Option Datum :=
  let (negative, body) := sign (trim text.toList)
  let word := String.ofList (body.map Char.toLower)
  if word = "inf" || word = "infinity" then some (.infinite negative)
  else if word = "nan" then some .nan
  else
    let (whole, rest) := digits body
    let (part, rest) := fraction rest
    if whole.isEmpty && part.isEmpty then none
    else
      match exponent rest with
      | (power, []) =>
          some (.ofDecimal negative (value (whole ++ part)) (power - part.length))
      | _ => none

end OnnxLowering.Numeral
