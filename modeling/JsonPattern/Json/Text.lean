import JsonPattern.Binary64.Text
import JsonPattern.Json.Basic

/-!
# Compact JSON text

`Json.text` writes a value without any blank space, members in their order. In a string the quote,
the backslash and the characters below U+0020 are escaped, the latter by a short escape where there
is one; all other characters stand for themselves.
-/

namespace JsonPattern

namespace Json

/-- Floats are positional from `0.00001` up to, but not including, `10 ^ 16`. -/
def floatLayout : FloatLayout := ⟨-4, 16⟩

/-- The lower-case hexadecimal digit of a number below sixteen. -/
def hexDigit (n : Nat) : Char := Nat.digitChar n

/-- How a character is written inside a string. -/
def escape (c : Char) : List Char :=
  if c = '"' then ['\\', '"']
  else if c = '\\' then ['\\', '\\']
  else if c = '\x08' then ['\\', 'b']
  else if c = '\x0c' then ['\\', 'f']
  else if c = '\n' then ['\\', 'n']
  else if c = '\r' then ['\\', 'r']
  else if c = '\t' then ['\\', 't']
  else if c.toNat < 0x20 then
    ['\\', 'u', '0', '0', hexDigit (c.toNat / 16), hexDigit (c.toNat % 16)]
  else [c]

/-- A string between quotes. -/
def quoted (s : String) : String :=
  String.ofList ('"' :: s.toList.flatMap escape ++ ['"'])

mutual

/-- The compact text of a value. -/
def text : Json → String
  | .null => "null"
  | .bool b => if b then "true" else "false"
  | .integer n => toString n
  | .float x => x.text floatLayout
  | .string s => quoted s
  | .array items => "[" ++ ",".intercalate (itemTexts items) ++ "]"
  | .object members => "\x7b" ++ ",".intercalate (memberTexts members) ++ "\x7d"
termination_by structural value => value

/-- The texts of the items of an array. -/
def itemTexts : List Json → List String
  | [] => []
  | item :: items => text item :: itemTexts items
termination_by structural items => items

/-- The texts of the members of an object: name, colon, value. -/
def memberTexts : List (String × Json) → List String
  | [] => []
  | (name, value) :: members => (quoted name ++ ":" ++ text value) :: memberTexts members
termination_by structural members => members

end

/-- A short description of a value: containers are named by their kind, scalars are written out. -/
def shallowText (value : Json) : String :=
  if value.isScalar then value.text else value.kind.label

end Json

end JsonPattern
