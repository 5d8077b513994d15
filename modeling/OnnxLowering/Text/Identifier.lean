/-
Identifiers: non-empty strings of ASCII letters, digits and underscores
that do not start with a digit. `sanitize` turns any string into one, by
putting an underscore for every other character and one more in front of
a leading digit. Identifiers are its fixed points, and it is not
injective: distinct names may end up as the same identifier.
-/

namespace OnnxLowering.Identifier

/-- The characters of identifiers. Letters and digits of other alphabets
are not among them. -/
def isWord (c : Char) : Bool := c.isAlphanum || c = '_'

/-- An underscore for every character that no identifier has. -/
def squash (chars : List Char) : List Char :=
  chars.map fun c => if isWord c then c else '_'

/-- One more underscore in front of a leading digit. -/
def shield : List Char → List Char
  | [] => []
  | c :: rest => if c.isDigit then '_' :: c :: rest else c :: rest

/-- The identifier that stands for a name; the empty name has a fixed
one. -/
def sanitize (name : String) : String :=
  if name.isEmpty then "const" else String.ofList (shield (squash name.toList))

/-- The lower-case form of a name, as far as identifiers can tell: ASCII
letters are lowered, and so are the two other characters whose lower
form contains an ASCII letter. -/
def lower (name : String) : String :=
  String.ofList <| name.toList.flatMap fun c =>
    if c = '\u212a' then ['k']
    else if c = '\u0130' then ['i', '\u0307']
    else [c.toLower]

/-- An underscore between a lower-case and an upper-case ASCII letter,
then everything in lower case. -/
def snakeCase (name : String) : String :=
  let rec go : Char → List Char → List Char
    | _, [] => []
    | before, c :: rest =>
        if before.isLower && c.isUpper then '_' :: c.toLower :: go c rest
        else c.toLower :: go c rest
  String.ofList (go ' ' name.toList)

end OnnxLowering.Identifier
