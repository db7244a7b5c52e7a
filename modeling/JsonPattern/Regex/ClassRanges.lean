import JsonPattern.Regex.Basic

/-!
# Classes as ranges

The code points of a class as an ascending list of disjoint ranges that do not touch each other,
and the sequences of byte ranges by which such a range is written in UTF-8.
-/

namespace JsonPattern

/-- A range of numbers, both ends included. -/
abbrev Span := Nat × Nat

/-- Joins ranges that overlap or touch, in an ascending list. -/
def joinSpans : List Span → List Span
  | [] => []
  | span :: spans =>
    let (last, done) := spans.foldl (fun ((last, done) : Span × List Span) next ↦
      if next.1 ≤ last.2 + 1 then ((last.1, max last.2 next.2), done)
      else (next, last :: done)) (span, [])
    (last :: done).reverse

/-- Merges a range and the ranges after it, which `mergeRest` does, into an ascending list. -/
def mergeSpan (mergeRest : List Span → List Span) (span : Span) : List Span → List Span
  | [] => span :: mergeRest []
  | other :: others =>
    if span.1 ≤ other.1 then span :: mergeRest (other :: others)
    else other :: mergeSpan mergeRest span others

/-- Merges two ascending lists of ranges. -/
def mergeSpans : List Span → List Span → List Span
  | [] => id
  | span :: spans => mergeSpan (mergeSpans spans) span

/-- The numbers in one of two lists of ranges. -/
def unionSpans (a b : List Span) : List Span := joinSpans (mergeSpans a b)

/-- The code point after another one that is a character. Surrogates are none. -/
def nextCode (n : Nat) : Nat := if n = 0xD7FF then 0xE000 else n + 1

/-- The code point before another one that is a character. Surrogates are none. -/
def previousCode (n : Nat) : Nat := if n = 0xE000 then 0xD7FF else n - 1

/-- The code points from `start` on that are in none of the ranges of an ascending list. -/
def complSpansFrom (start : Nat) : List Span → List Span
  | [] => if start ≤ 0x10FFFF then [(start, 0x10FFFF)] else []
  | (low, high) :: spans =>
    (if start < low then [(start, previousCode low)] else []) ++
      complSpansFrom (nextCode high) spans

/-- The code points in none of the ranges. -/
def complSpans (spans : List Span) : List Span := complSpansFrom 0 spans

/-- The characters, in ascending order, that have variants in another case. -/
def casedChars : List Char :=
  (List.range 26).map (fun n ↦ Char.ofNat (65 + n)) ++
    (List.range 26).map (fun n ↦ Char.ofNat (97 + n)) ++ ['\u017f', '\u212a']

/-- The code points of a class. -/
def CharClass.spans : CharClass → List Span
  | .none => []
  | .range low high => if low ≤ high then [(low.toNat, high.toNat)] else []
  | .digit => digitRanges
  | .blank => blankRanges
  | .word => unionSpans letterRanges wordPartRanges
  | .union a b => unionSpans a.spans b.spans
  | .inter a b => complSpans (unionSpans (complSpans a.spans) (complSpans b.spans))
  | .compl a => complSpans a.spans
  | .ignoreCase a =>
    unionSpans a.spans
      ((casedChars.filter fun c ↦ (CharClass.ignoreCase a).contains c).map fun c ↦
        (c.toNat, c.toNat))
  | .ignoreAsciiCase a =>
    unionSpans a.spans
      ((casedChars.filter fun c ↦ (CharClass.ignoreAsciiCase a).contains c).map fun c ↦
        (c.toNat, c.toNat))

/-- Whether a class contains ASCII characters only. -/
def CharClass.isAscii (cls : CharClass) : Bool := cls.spans.all (·.2 < 128)

/-! ### Bytes -/

/-- The sequences of digit ranges to the base 64, of `count + 1` digits each, that make up the range
from `low` to `high`, in ascending order. The first digit is not bounded. -/
def digitSpans : Nat → Nat → Nat → List (List Span)
  | 0, low, high => [[(low, high)]]
  | count + 1, low, high =>
    let unit := 1 <<< (6 * (count + 1))
    let first := low / unit
    let last := high / unit
    let below (n from' to' : Nat) : List (List Span) :=
      (digitSpans count from' to').map ((n, n) :: ·)
    if first = last then below first (low % unit) (high % unit)
    else
      let wholeFirst := if low % unit = 0 then first else first + 1
      let wholeEnd := if high % unit = unit - 1 then last + 1 else last
      (if low % unit = 0 then [] else below first (low % unit) (unit - 1)) ++
        (if wholeFirst < wholeEnd then
          [(wholeFirst, wholeEnd - 1) :: List.replicate (count + 1) (0, 63)] else []) ++
        (if high % unit = unit - 1 then [] else below last 0 (high % unit))

/-- The ranges of code points that are written in UTF-8 by one, two, three and four bytes, each with
the number of bytes after the first and what is added to the first. Surrogates are left out. -/
def encodedSpans : List (Span × Nat × Nat) :=
  [((0, 0x7F), 0, 0), ((0x80, 0x7FF), 1, 0xC0), ((0x800, 0xD7FF), 2, 0xE0),
    ((0xE000, 0xFFFF), 2, 0xE0), ((0x10000, 0x10FFFF), 3, 0xF0)]

/-- The sequences of byte ranges by which a range of code points is written in UTF-8. -/
def byteSpans (span : Span) : List (List Span) :=
  encodedSpans.flatMap fun ((low, high), count, lead) ↦
    let low := max low span.1
    let high := min high span.2
    if low ≤ high then
      (digitSpans count low high).map fun digits ↦
        match digits with
        | (a, b) :: rest =>
          (lead + a, lead + b) :: rest.map fun (c, d) ↦ (0x80 + c, 0x80 + d)
        | [] => []
    else []

end JsonPattern
