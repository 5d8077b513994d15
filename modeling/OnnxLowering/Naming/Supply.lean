/-
Unique names. A supply hands out variable names for the textual form of
a module: each one as close to the wish as possible, none that is
reserved, and none twice. A wish that is taken is numbered, and one that
ends in a number already goes on from that number.
-/
import OnnxLowering.Naming.Counter
import OnnxLowering.Text.Identifier
import OnnxLowering.Text.Reserved

namespace OnnxLowering

structure NameSupply where
  used : List String := []
  counts : Counters := .empty
deriving Repr, Inhabited

namespace NameSupply

/-- The number that a list of decimal digits writes. -/
def decimalValue (digits : List Char) : Nat :=
  digits.foldl (fun n c => 10 * n + (c.toNat - '0'.toNat)) 0

/-- A trailing number, split off together with the underscore before it:
`a_1_2` is `a_1` numbered 2. Something has to be left: `_5` is not
numbered. -/
def splitNumber (name : String) : String × Option Nat :=
  let reversed := name.toList.reverse
  let digits := (reversed.takeWhile Char.isDigit).reverse
  match reversed.dropWhile Char.isDigit with
  | '_' :: base =>
      if digits.isEmpty || base.isEmpty then (name, none)
      else (String.ofList base.reverse, some (decimalValue digits))
  | _ => (name, none)

/-- The wish as a name: it does not start with a digit, and is not
empty. -/
def admissible (wish : String) : String :=
  if wish.isEmpty then "_unnamed" else String.ofList (Identifier.shield wish.toList)

/-- The first of `base_n`, `base_(n+1)`, … that is not used. Among the
first `fuel` of them there is one as soon as `fuel` exceeds the number
of used names. -/
def firstFree (used : List String) (base : String) : Nat → Nat → Nat
  | 0, n => n
  | fuel + 1, n =>
      if used.contains (base ++ "_" ++ toString n) then firstFree used base fuel (n + 1)
      else n

/-- Hands out a name for a wish. All names of one base are numbered
together: the next number is counted from the last name that the base
has got. -/
@[irreducible]
def create (supply : NameSupply) (wish : String) : String × NameSupply :=
  let wish := admissible wish
  let (base, number) := splitNumber wish
  let (start, number) : String × Nat :=
    match number, supply.used.contains wish with
    | some n, false => (wish, n)
    | _, _ =>
        let n := supply.counts.count base
        if Reserved.isIllegalVariable wish then
          (base ++ "_" ++ toString (n + 1), n + 1)
        else (wish, n)
  let (name, number) : String × Nat :=
    if supply.used.contains start then
      let n := firstFree supply.used base (supply.used.length + 1) (number + 1)
      (base ++ "_" ++ toString n, n)
    else (start, number)
  (name, ⟨name :: supply.used, supply.counts.insert base number⟩)

end NameSupply

end OnnxLowering
