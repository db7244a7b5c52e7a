import JsonPattern.Binary64.Basic

/-!
# The shortest decimal that reads back

The reals that round to a given double form an interval, which contains its end points exactly
when the word is even. A decimal `d * 10 ^ k` *reads back* as the double if it lies in that
interval. For each number of digits from one to seventeen the double has two neighbours on the
decimal grid of that many significant digits; the first grid with a neighbour that reads back is
taken, and of two such neighbours the nearer one, a tie going to the even one.

Everything is compared in half units, after both sides are multiplied by the powers of ten that
make them whole.
-/

namespace JsonPattern

/-- A positive decimal `coefficient * 10 ^ exponent`. -/
structure Decimal where
  /-- The digits as one number. -/
  coefficient : Nat
  /-- The power of ten they are multiplied by. -/
  exponent : Int
  deriving DecidableEq

/-- The number of decimal digits of a natural number; zero has one. -/
def digitCount (n : Nat) : Nat := (Nat.toDigits 10 n).length

/-- The power of ten just above `num / den`: the least `p` with `num / den < 10 ^ p`. The digit
counts of numerator and denominator determine it up to one. -/
def decimalPoint (num den : Nat) : Int :=
  let p : Int := (digitCount num : Int) - digitCount den
  if num * Nat.pow 10 (-p).toNat < den * Nat.pow 10 p.toNat then p else p + 1

/-- The neighbour of the double `word` on the grid of multiples of `10 ^ exponent` that reads back
as the double: the nearer one if both do, and nothing if neither does. -/
def gridNeighbour? (word : Nat) (exponent : Int) : Option Decimal :=
  let scale := Nat.pow 10 (-exponent).toNat
  let step := Nat.pow 10 exponent.toNat <<< 1075
  let low := (wordUnits (word - 1) + wordUnits word) * scale
  let value := 2 * wordUnits word * scale
  let high := (wordUnits word + wordUnits (word + 1)) * scale
  let readsBack (d : Nat) : Bool :=
    if word % 2 = 0 then low ≤ d * step && d * step ≤ high
    else low < d * step && d * step < high
  let below := value / step
  let above := below + 1
  match readsBack below, readsBack above with
  | false, false => none
  | true, false => some ⟨below, exponent⟩
  | false, true => some ⟨above, exponent⟩
  | true, true => some ⟨if value % step * 2 < step then below
      else if step < value % step * 2 then above
      else if below % 2 = 0 then below else above, exponent⟩

/-- The shortest decimal that reads back as the positive double `word`, and the nearest of those.
Seventeen digits always suffice, so the last resort, the double's own value, is never needed. -/
def shortestDecimal (word : Nat) : Decimal :=
  let point := decimalPoint (wordUnits word) (1 <<< 1074)
  ((List.range 17).findSome? fun (n : Nat) ↦ gridNeighbour? word (point - (n + 1))).getD
    ⟨wordUnits word * Nat.pow 5 1074, -1074⟩

end JsonPattern
