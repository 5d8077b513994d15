/-
The shortest decimal that reads back as a given number of the double
format: the fewest digits for which one of the two decimals next to the
number is rounded to it, and of those the nearer one.
-/
import OnnxLowering.Number.Binary

namespace OnnxLowering.Shortest

/-- The decimal exponent of the first digit of `numerator / denominator`,
for a positive fraction: the count starts low and goes up while the next
power of ten is still not above. -/
def leadingExponent (numerator denominator : Nat) : Int :=
  let reaches (k : Int) : Bool :=
    if 0 ≤ k then denominator * Nat.pow 10 k.toNat ≤ numerator
    else denominator ≤ numerator * Nat.pow 10 (-k).toNat
  let guess : Int := ((numerator.log2 : Int) - denominator.log2 - 1) * 30103 / 100000 - 1
  let steps : List Nat := (List.range 4).takeWhile fun n => reaches (guess + (n : Nat) + 1)
  guess + steps.length

/-- The digits and the exponent of the last digit, for a positive finite
pattern of the double format. -/
def digits (bits : Nat) : Nat × Int :=
  match BinaryFormat.double.decode bits with
  | .finite _ significand exponent =>
      let numerator := significand <<< exponent.toNat
      let denominator := 1 <<< (-exponent).toNat
      let first := leadingExponent numerator denominator
      let readsBack (d : Nat) (last : Int) : Bool :=
        BinaryFormat.double.encode (.ofDecimal false d last) = bits
      let attempt (count : Nat) : Option (Nat × Int) :=
        let last := first - count
        let scaledNumerator := numerator * Nat.pow 10 (-last).toNat
        let scaledDenominator := denominator * Nat.pow 10 last.toNat
        let below := scaledNumerator / scaledDenominator
        let rest := scaledNumerator % scaledDenominator
        let nearer := if 2 * rest ≤ scaledDenominator then [below, below + 1] else [below + 1, below]
        (nearer.find? (readsBack · last)).map (·, last)
      ((List.range 17).findSome? attempt).getD (0, 0)
  | _ => (0, 0)

/-- The text of a double: positional where its first digit stands
between the ten-thousandths and the sixteenth place before the point,
else with an exponent of at least two digits. A whole number keeps one
zero after the point. -/
def render (bits : Nat) : String :=
  match BinaryFormat.double.decode bits with
  | .nan => "nan"
  | .infinite negative => if negative then "-inf" else "inf"
  | .finite negative significand _ =>
      let sign := if negative then "-" else ""
      if significand = 0 then sign ++ "0.0"
      else
        let (ds, last) := digits (bits % BinaryFormat.double.signWeight)
        let text := (toString ds).toList.reverse.dropWhile (· = '0') |>.reverse
        let point : Int := last + (toString ds).length
        if -4 < point && point ≤ 16 then
          if point ≤ 0 then
            sign ++ "0." ++ String.ofList (List.replicate (-point).toNat '0' ++ text)
          else
            let whole := text.take point.toNat
            let pad := List.replicate (point.toNat - whole.length) '0'
            let rest := text.drop point.toNat
            sign ++ String.ofList (whole ++ pad) ++ "."
              ++ (if rest.isEmpty then "0" else String.ofList rest)
        else
          let power := point - 1
          let magnitude := toString power.natAbs
          sign ++ String.ofList (text.take 1)
            ++ (if text.length = 1 then "" else "." ++ String.ofList (text.drop 1))
            ++ "e" ++ (if power < 0 then "-" else "+")
            ++ (if magnitude.length = 1 then "0" ++ magnitude else magnitude)

end OnnxLowering.Shortest
