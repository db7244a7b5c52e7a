import JsonPattern.Json.Basic

/-!
# Paths

A path names a place inside a value by the steps that lead to it from the root: into a member by
its name, or into an item of an array by its index. `Path.text` writes it as `$['a'][3]`, where
the quote and the backslash of a name are escaped by a backslash. `Path.toJson` and
`Path.ofJson?` are its structured form, a list of strings and natural numbers.
-/

namespace JsonPattern

/-- A step from a container into one of its parts. -/
inductive Step
  /-- Into the member of that name. -/
  | name (label : String)
  /-- Into the item at that position, counted from zero. -/
  | index (i : Nat)
  deriving DecidableEq

/-- The steps from the root of a value to one of its places. -/
structure Path where
  /-- The steps, the outermost first. -/
  steps : List Step
  deriving DecidableEq

/-- How a character of a name is written in a path. -/
def Step.escape (c : Char) : List Char :=
  if c = '\'' ∨ c = '\\' then ['\\', c] else [c]

/-- The characters of a step: its bracketed name or index. -/
def Step.chars : Step → List Char
  | .name label => '[' :: '\'' :: label.toList.flatMap Step.escape ++ ['\'', ']']
  | .index i => '[' :: Nat.toDigits 10 i ++ [']']

/-- A number of the structured form: a natural number of 64 bits. -/
def Json.word? : Json → Option Nat
  | .integer n => if 0 ≤ n ∧ n < UInt64.size then some n.toNat else none
  | _ => none

/-- Reads a string. -/
def Json.string? : Json → Option String
  | .string s => some s
  | _ => none

/-- The structured form of a step. -/
def Step.toJson : Step → Json
  | .name label => .string label
  | .index i => .integer i

/-- Reads a step from its structured form: a name or an index. -/
def Step.ofJson? : Json → Option Step
  | .string label => some (.name label)
  | value => value.word?.map .index

namespace Path

/-- The path of the root. -/
def root : Path := ⟨[]⟩

/-- The path with one step more. -/
def child (path : Path) (step : Step) : Path := ⟨path.steps ++ [step]⟩

/-- The path into a member. -/
def member (path : Path) (name : String) : Path := path.child (.name name)

/-- The path into an item of an array. -/
def item (path : Path) (index : Nat) : Path := path.child (.index index)

/-- The text of a path. -/
def text (path : Path) : String := String.ofList ('$' :: path.steps.flatMap Step.chars)

/-- The structured form of a path. -/
def toJson (path : Path) : Json := .array (path.steps.map Step.toJson)

/-- Reads a path from its structured form. -/
def ofJson? : Json → Option Path
  | .array items => (items.mapM Step.ofJson?).map Path.mk
  | _ => none

end Path

end JsonPattern
