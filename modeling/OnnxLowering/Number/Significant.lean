/-
Decimals of a given number of significant digits. A number is rounded to
so many digits, a tie to the even neighbour, and zeros at the end of a
fraction are left out. Numbers of a format are written with a few digits
where these read back, and else with as many as always do.
-/
import OnnxLowering.Number.Shortest

namespace OnnxLowering.Significant

/-- The decimal of `count` digits that is nearest to a positive fraction:
its digits, and the exponent of the first of them. A carry out of the
first digit moves the exponent up. -/
def nearest (count numerator denominator : Nat) : Nat × Int :=
  let first := Shortest.leadingExponent numerator denominator
  let last := first - (count - 1 : Nat)
  let n := numerator * Nat.pow 10 (-last).toNat
  let d := denominator * Nat.pow 10 last.toNat
  let below := n / d
  let rest := n % d
  let digits := if 2 * rest < d || (2 * rest = d && below % 2 = 0) then below else below + 1
  if digits = Nat.pow 10 count then (Nat.pow 10 (count - 1), first + 1) else (digits, first)

/-- The text of a decimal of `count` digits: positional where its first
digit stands between the ten-thousandths and the place that leaves room
for no fraction, else with an exponent of at least two digits. -/
def layOut (count digits : Nat) (first : Int) : String :=
  let text := ((toString digits).toList.reverse.dropWhile (· = '0')).reverse
  let fraction (rest : List Char) : String :=
    if rest.isEmpty then "" else "." ++ String.ofList rest
  if -4 ≤ first && first < count then
    if first < 0 then
      "0." ++ String.ofList (List.replicate (-first - 1).toNat '0' ++ text)
    else
      let size := first.toNat + 1
      String.ofList (text.take size ++ List.replicate (size - text.length) '0')
        ++ fraction (text.drop size)
  else
    let magnitude := toString first.natAbs
    String.ofList (text.take 1) ++ fraction (text.drop 1)
      ++ (if first < 0 then "e-" else "e+")
      ++ (if magnitude.length = 1 then "0" ++ magnitude else magnitude)

/-- The numbers of digits that are tried for a format. The last one
always reads back. -/
def counts (format : BinaryFormat) : List Nat :=
  if format = .single then [6, 9] else [15, 17]

/-- The text of a number of a format. -/
def render (format : BinaryFormat) (bits : Nat) : String :=
  match format.decode bits with
  | .nan => "nan"
  | .infinite negative => if negative then "-inf" else "inf"
  | .finite negative significand exponent =>
      let sign := if negative then "-" else ""
      if significand = 0 then sign ++ "0"
      else
        let numerator := significand <<< exponent.toNat
        let denominator := 1 <<< (-exponent).toNat
        let attempt (count : Nat) : Option String :=
          let (digits, first) := nearest count numerator denominator
          let decimal := Datum.ofDecimal false digits (first - (count - 1 : Nat))
          if format.encode decimal = bits % format.signWeight then
            some (layOut count digits first)
          else none
        sign ++ ((counts format).findSome? attempt).getD ""

end OnnxLowering.Significant
