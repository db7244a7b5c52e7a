/-!
# Finite doubles

A finite double is a sign together with a *word*: the 11 exponent bits followed by the 52
fraction bits, read as one natural number. Words are ordered as the magnitudes they stand for,
and the magnitude itself is a natural number of *units*, the unit being `2 ^ (-1074)`, the least
positive double. All arithmetic below is therefore exact arithmetic on natural numbers.

Decimal notation is read by `Binary64.ofDecimal?`, which rounds to the nearest double and breaks a
tie towards the even word.
-/

namespace JsonPattern

/-- The number of words with the same exponent bits, `2 ^ 52`. -/
abbrev binadeSize : Nat := 0x10000000000000

/-- The word of infinity: the least word that is not the word of a finite double. -/
def infinityWord : Nat := 2047 * binadeSize

/-- A finite double. The two zeros are different doubles that compare equal. -/
structure Binary64 where
  /-- Whether the sign bit is set. -/
  negative : Bool
  /-- Exponent and fraction bits as one number. -/
  word : Nat
  /-- The double is finite. -/
  word_lt : word < infinityWord
  deriving DecidableEq

/-- The magnitude that a word stands for, in units of `2 ^ (-1074)`. A word whose exponent bits
are zero has no hidden bit. -/
def wordUnits (word : Nat) : Nat :=
  let exponent := word / binadeSize
  let fraction := word % binadeSize
  if exponent = 0 then fraction else (binadeSize + fraction) <<< (exponent - 1)

/-- The nearest natural number to `num / den`; a tie goes to the even neighbour. -/
def roundQuotient (num den : Nat) : Nat :=
  let floor := num / den
  let twice := 2 * (num % den)
  if twice < den then floor
  else if den < twice then floor + 1
  else if floor % 2 = 0 then floor else floor + 1

/-- The word nearest to `num / den` units. The quotient is rounded to 53 significant bits, or to a
whole number of units where that is coarser. A carry out of the fraction moves into the exponent
by itself, since both are parts of one number. -/
def nearestWord (num den : Nat) : Nat :=
  let shift := (num / den).log2 - 52
  shift * binadeSize + roundQuotient num (den <<< shift)

namespace Binary64

/-- The zero of the given sign. -/
def zero (negative : Bool) : Binary64 := ⟨negative, 0, by decide⟩

/-- The finite double with the given sign and word, if there is one. -/
def ofWord? (negative : Bool) (word : Nat) : Option Binary64 :=
  if h : word < infinityWord then some ⟨negative, word, h⟩ else none

/-- The double nearest to `± digits * 10 ^ exponent`, or nothing if the magnitude rounds beyond the
greatest finite double.

Exponents far outside the range of doubles are decided by the number of digits alone: a positive
number of at least `10 ^ 310` is too great, and one below `10 ^ (-400)` is zero. -/
def ofDecimal? (negative : Bool) (digits : Nat) (exponent : Int) : Option Binary64 :=
  if digits = 0 then some (zero negative)
  else if exponent > 310 then none
  else if exponent + (Nat.toDigits 10 digits).length < -400 then some (zero negative)
  else ofWord? negative
    (nearestWord ((digits * Nat.pow 10 exponent.toNat) <<< 1074) (Nat.pow 10 (-exponent).toNat))

/-- Numerical equality: the signs matter unless both are zero. -/
def equal (x y : Binary64) : Bool :=
  x.word == y.word && (x.negative == y.negative || x.word == 0)

end Binary64

end JsonPattern
