import JsonPattern.Digits
import JsonPattern.Json.Basic

/-!
# Reading JSON text

`Json.ofText?` reads a text that holds exactly one JSON value. The members of an object keep their
order. The token of a number decides its kind: without fraction and exponent, and within the range
of 64-bit words with or without sign, it is an integer; every other number is the nearest double,
and a number beyond the greatest double is refused. The token `-0` is the negative zero.
-/

namespace JsonPattern

namespace Json

/-- The blank characters that may stand between tokens. -/
def isBlank (c : Char) : Bool := c == ' ' || c == '\n' || c == '\r' || c == '\t'

/-- The value of four hexadecimal digits. -/
def hexUnit? (a b c d : Char) : Option Nat := do
  return (((← hexValue? a) * 16 + (← hexValue? b)) * 16 + (← hexValue? c)) * 16 + (← hexValue? d)

/-- The character that a short escape stands for. -/
def shortEscape? : Char → Option Char
  | '"' => some '"'
  | '\\' => some '\\'
  | '/' => some '/'
  | 'b' => some '\x08'
  | 'f' => some '\x0c'
  | 'n' => some '\n'
  | 'r' => some '\r'
  | 't' => some '\t'
  | _ => none

/-- Reads the rest of a string, the opening quote being consumed. A character beyond U+FFFF may be
escaped as a pair of surrogates; a surrogate alone is refused. -/
def readString (done : String) : List Char → Option (String × List Char)
  | [] => none
  | '"' :: rest => some (done, rest)
  | '\\' :: 'u' :: a :: b :: c :: d :: '\\' :: 'u' :: e :: f :: g :: h :: rest =>
    match hexUnit? a b c d, hexUnit? e f g h with
    | some high, some low =>
      if 0xD800 ≤ high ∧ high < 0xDC00 then
        if 0xDC00 ≤ low ∧ low < 0xE000 then
          readString
            (done.push (Char.ofNat (0x10000 + (high - 0xD800) * 0x400 + (low - 0xDC00)))) rest
        else none
      else if 0xDC00 ≤ high ∧ high < 0xE000 then none
      else readString (done.push (Char.ofNat high)) ('\\' :: 'u' :: e :: f :: g :: h :: rest)
    | _, _ => none
  | '\\' :: 'u' :: a :: b :: c :: d :: rest =>
    match hexUnit? a b c d with
    | some unit =>
      if 0xD800 ≤ unit ∧ unit < 0xE000 then none
      else readString (done.push (Char.ofNat unit)) rest
    | none => none
  | '\\' :: c :: rest =>
    match shortEscape? c with
    | some decoded => readString (done.push decoded) rest
    | none => none
  | c :: rest => if c.toNat < 0x20 || c == '\\' then none else readString (done.push c) rest

/-- The digits at the front of a text, and what follows them. -/
def spanDigits (cs : List Char) : List Char × List Char := cs.span Char.isDigit

/-- The fraction digits of a number, if a point follows; at least one is needed. -/
def readFraction : List Char → Option (List Char × List Char)
  | '.' :: rest =>
    match spanDigits rest with
    | ([], _) => none
    | result => some result
  | rest => some ([], rest)

/-- The exponent of a number, if there is one: whether it is negative, its digits, and the rest. -/
def readExponent : List Char → Option (Option Int × List Char)
  | c :: rest =>
    if c == 'e' || c == 'E' then
      let (negative, rest) := match rest with
        | '-' :: rest => (true, rest)
        | '+' :: rest => (false, rest)
        | rest => (false, rest)
      match spanDigits rest with
      | ([], _) => none
      | (digits, rest) =>
        let value : Int := decimalValue digits
        some (some (if negative then -value else value), rest)
    else some (none, c :: rest)
  | [] => some (none, [])

/-- The value of a number token without fraction and exponent. -/
def wholeNumber? (negative : Bool) (value : Nat) : Option Json :=
  if negative && value == 0 then some (.float (Binary64.zero true))
  else if negative && value ≤ UInt64.size / 2 then some (.integer (-value))
  else if !negative && value < UInt64.size then some (.integer value)
  else (Binary64.ofDecimal? negative value 0).map .float

/-- Reads a number. Its whole part is a zero alone or begins with another digit. -/
def readNumber (cs : List Char) : Option (Json × List Char) := do
  let (negative, cs) := match cs with
    | '-' :: rest => (true, rest)
    | rest => (false, rest)
  let (whole, cs) := spanDigits cs
  if whole.isEmpty || (whole.head? == some '0' && whole.length > 1) then none
  else
    let (fraction, rest) ← readFraction cs
    let (exponent, rest') ← readExponent rest
    if fraction.isEmpty && exponent.isNone then
      return (← wholeNumber? negative (decimalValue whole), rest')
    else
      let value ← Binary64.ofDecimal? negative (decimalValue (whole ++ fraction))
        (exponent.getD 0 - fraction.length)
      return (.float value, rest')

/-- What follows a fixed word at the front of a text. -/
def afterWord? (word : String) (cs : List Char) : Option (List Char) :=
  if word.toList.isPrefixOf cs then some (cs.drop word.length) else none

mutual

/-- Reads one value, blanks before it included. The budget bounds the number of nested calls. -/
def readValue : Nat → List Char → Option (Json × List Char)
  | 0, _ => none
  | budget + 1, cs =>
    match cs.dropWhile isBlank with
    | [] => none
    | '"' :: rest => (readString "" rest).map fun (s, rest) ↦ (.string s, rest)
    | '[' :: rest =>
      match rest.dropWhile isBlank with
      | ']' :: rest => some (.array [], rest)
      | rest => (readItems budget rest).map fun (items, rest) ↦ (.array items, rest)
    | '\x7b' :: rest =>
      match rest.dropWhile isBlank with
      | '\x7d' :: rest => some (.object [], rest)
      | rest => (readMembers budget rest).map fun (members, rest) ↦ (.object members, rest)
    | 'n' :: rest => (afterWord? "ull" rest).map fun rest ↦ (.null, rest)
    | 't' :: rest => (afterWord? "rue" rest).map fun rest ↦ (.bool true, rest)
    | 'f' :: rest => (afterWord? "alse" rest).map fun rest ↦ (.bool false, rest)
    | cs => readNumber cs

/-- Reads the items of a non-empty array up to its closing bracket. -/
def readItems : Nat → List Char → Option (List Json × List Char)
  | 0, _ => none
  | budget + 1, cs =>
    match readValue budget cs with
    | none => none
    | some (item, rest) =>
      match rest.dropWhile isBlank with
      | ',' :: rest => (readItems budget rest).map fun (items, rest) ↦ (item :: items, rest)
      | ']' :: rest => some ([item], rest)
      | _ => none

/-- Reads the members of a non-empty object up to its closing brace. -/
def readMembers : Nat → List Char → Option (List (String × Json) × List Char)
  | 0, _ => none
  | budget + 1, cs =>
    match cs.dropWhile isBlank with
    | '"' :: rest =>
      match readString "" rest with
      | none => none
      | some (name, rest) =>
        match rest.dropWhile isBlank with
        | ':' :: rest =>
          match readValue budget rest with
          | none => none
          | some (value, rest) =>
            match rest.dropWhile isBlank with
            | ',' :: rest =>
              (readMembers budget rest).map fun (members, rest) ↦ ((name, value) :: members, rest)
            | '\x7d' :: rest => some ([(name, value)], rest)
            | _ => none
        | _ => none
    | _ => none

end

/-- The value that a text holds, if it holds exactly one. Of two nested calls at least one consumes
a character, so twice the length of the text is budget enough. -/
def ofText? (s : String) : Option Json :=
  let cs := s.toList
  match readValue (2 * cs.length + 2) cs with
  | some (value, rest) => if rest.all isBlank then some value else none
  | none => none

end Json

end JsonPattern
