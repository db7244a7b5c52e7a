import JsonPattern.Binary64.Shortest

/-!
# The text of a double

The digits are those of the shortest decimal that reads back. A `FloatLayout` says for which
positions of the decimal point they are written in positional notation; it then has at least one
digit on either side of the point. All other doubles are written with one digit before the point
and a signed power of ten, and without a point if that one digit is all there is.
-/

namespace JsonPattern

/-- Where positional notation begins and ends. A number `0.d₁d₂… * 10 ^ p` with `d₁ ≠ 0` is written
positionally if `leastPoint ≤ p ≤ greatestPoint`. -/
structure FloatLayout where
  /-- The least position of the point that is written positionally. -/
  leastPoint : Int
  /-- The greatest position of the point that is written positionally. -/
  greatestPoint : Int

/-- The significant digits of a decimal, without the zeros at the end, and the position `p` of the
point for which the decimal is `0.d₁d₂… * 10 ^ p`. -/
def Decimal.significant (d : Decimal) : List Char × Int :=
  let digits := Nat.toDigits 10 d.coefficient
  ((digits.reverse.dropWhile (· == '0')).reverse, d.exponent + digits.length)

/-- Positional notation, with at least one digit on either side of the point. -/
def positionalText (digits : List Char) (point : Int) : List Char :=
  if point ≤ 0 then
    '0' :: '.' :: List.replicate (-point).toNat '0' ++ digits
  else if point < digits.length then
    digits.take point.toNat ++ '.' :: digits.drop point.toNat
  else
    digits ++ List.replicate (point.toNat - digits.length) '0' ++ ['.', '0']

/-- Scientific notation: one digit, the others after a point, and a signed exponent. -/
def scientificText (digits : List Char) (point : Int) : List Char :=
  let exponent := point - 1
  let sign := if exponent < 0 then '-' else '+'
  let fraction := match digits.drop 1 with
    | [] => []
    | rest => '.' :: rest
  digits.take 1 ++ fraction ++ 'e' :: sign :: Nat.toDigits 10 exponent.natAbs

/-- The text of a double. A zero keeps its sign. -/
def Binary64.text (layout : FloatLayout) (x : Binary64) : String :=
  let sign := if x.negative then ['-'] else []
  let magnitude :=
    if x.word = 0 then ['0', '.', '0']
    else
      let (digits, point) := (shortestDecimal x.word).significant
      if layout.leastPoint ≤ point ∧ point ≤ layout.greatestPoint then
        positionalText digits point
      else scientificText digits point
  String.ofList (sign ++ magnitude)

end JsonPattern
