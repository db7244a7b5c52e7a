import JsonPattern.Regex.CharProperty

/-!
# Regular expressions

A regular expression is built from classes of characters and tests of the surroundings by
sequence, choice and repetition. Whether a repetition prefers few or many rounds, and which parts
of a match a group captures, plays no role for the question whether an expression matches, so
neither is represented.
-/

namespace JsonPattern

/-- A class of characters. -/
inductive CharClass
  /-- No character. -/
  | none
  /-- The characters between two code points, both included. -/
  | range (low high : Char)
  /-- Decimal digits. -/
  | digit
  /-- Blanks. -/
  | blank
  /-- Word characters. -/
  | word
  | union (a b : CharClass)
  | inter (a b : CharClass)
  | compl (a : CharClass)
  /-- The characters that differ from one of the class at most by the case of a letter. -/
  | ignoreCase (a : CharClass)
  /-- The characters that differ from one of the class at most by the case of an ASCII letter. -/
  | ignoreAsciiCase (a : CharClass)
  deriving DecidableEq

/-- The ASCII characters that are the same letter as `c` in another case, and `c` itself. -/
def asciiCaseVariants (c : Char) : List Char :=
  if c.isLower then [c, c.toUpper] else if c.isUpper then [c, c.toLower] else [c]

/-- The characters that are the same letter as `c` in another case, and `c` itself. The letters of
the ASCII alphabet are treated, together with the two further characters that are lower or upper
case to them, the Kelvin sign and the long s. -/
def caseVariants (c : Char) : List Char :=
  if c = 'k' ∨ c = 'K' ∨ c = '\u212a' then ['k', 'K', '\u212a']
  else if c = 's' ∨ c = 'S' ∨ c = '\u017f' then ['s', 'S', '\u017f']
  else asciiCaseVariants c

namespace CharClass

/-- Whether a class contains a character. -/
def contains : CharClass → Char → Bool
  | .none, _ => false
  | .range low high, c => low ≤ c && c ≤ high
  | .digit, c => isDigitChar c
  | .blank, c => isBlankChar c
  | .word, c => isWordChar c
  | .union a b, c => a.contains c || b.contains c
  | .inter a b, c => a.contains c && b.contains c
  | .compl a, c => !a.contains c
  | .ignoreCase a, c => (caseVariants c).any a.contains
  | .ignoreAsciiCase a, c => (asciiCaseVariants c).any a.contains

/-- The class of one character. -/
def char (c : Char) : CharClass := .range c c

/-- The class of the characters of a list. -/
def ofList (cs : List Char) : CharClass := cs.foldr (fun c a ↦ .union (.char c) a) .none

/-- The characters of the first class that are not in the second. -/
def diff (a b : CharClass) : CharClass := .inter a (.compl b)

end CharClass

/-- A place between two characters of a text. -/
structure Gap where
  /-- The character before the place. -/
  before : Option Char
  /-- The character after the place. -/
  after : Option Char
  deriving DecidableEq

/-- What is asked of the characters around a place with regard to words. -/
inductive WordTest
  | boundary
  | noBoundary
  | start
  | stop
  | startHalf
  | stopHalf
  deriving DecidableEq

/-- Whether a test of words holds, given whether word characters stand before and after. -/
def WordTest.holds : WordTest → Bool → Bool → Bool
  | .boundary, before, after => before != after
  | .noBoundary, before, after => before == after
  | .start, before, after => !before && after
  | .stop, before, after => before && !after
  | .startHalf, before, _ => !before
  | .stopHalf, _, after => !after

/-- A test of the characters before and after a place. -/
inductive Look
  | textStart
  | textEnd
  | lineStart
  | lineEnd
  /-- As `lineStart`, where a carriage return, alone or before a line feed, also ends a line. -/
  | anyLineStart
  /-- As `lineEnd`, where a carriage return, alone or before a line feed, also ends a line. -/
  | anyLineEnd
  | word (test : WordTest)
  /-- As `word`, for words of ASCII characters. -/
  | asciiWord (test : WordTest)
  deriving DecidableEq

/-- Whether a test holds at a place. -/
def Look.holds (look : Look) (gap : Gap) : Bool :=
  match look with
  | .textStart => gap.before.isNone
  | .textEnd => gap.after.isNone
  | .lineStart => gap.before.all (· == '\n')
  | .lineEnd => gap.after.all (· == '\n')
  | .anyLineStart =>
    gap.before.all (· == '\n') || (gap.before == some '\r' && gap.after != some '\n')
  | .anyLineEnd =>
    gap.after.all (· == '\r') || (gap.after == some '\n' && gap.before != some '\r')
  | .word test => test.holds (gap.before.any isWordChar) (gap.after.any isWordChar)
  | .asciiWord test => test.holds (gap.before.any isAsciiWordChar) (gap.after.any isAsciiWordChar)

/-- A regular expression. -/
inductive Regex
  /-- The empty text. -/
  | empty
  /-- One character of a class. -/
  | chars (cls : CharClass)
  /-- The empty text at a place that passes a test. -/
  | look (test : Look)
  /-- One expression after the other. -/
  | seq (a b : Regex)
  /-- One of two expressions. -/
  | alt (a b : Regex)
  /-- An expression any number of times. -/
  | star (a : Regex)
  /-- An expression exactly `n` times. -/
  | times (a : Regex) (n : Nat)
  /-- An expression at most `n` times. -/
  | upTo (a : Regex) (n : Nat)
  deriving DecidableEq

namespace Regex

/-- One character. -/
def char (c : Char) : Regex := .chars (.char c)

/-- The expressions of a list one after the other. -/
def concat (parts : List Regex) : Regex := parts.foldr .seq .empty

/-- An expression at least once. -/
def plus (a : Regex) : Regex := .seq a (.star a)

/-- An expression at least `low` times and, if there is a bound, at most `high` times. -/
def repeated (a : Regex) (low : Nat) : Option Nat → Regex
  | some high => .seq (.times a low) (.upTo a (high - low))
  | none => .seq (.times a low) (.star a)

end Regex

end JsonPattern
