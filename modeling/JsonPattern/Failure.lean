import JsonPattern.Json.Text
import JsonPattern.LabelSet
import JsonPattern.Path

/-!
# Failures

A failure says that a value diverges from its pattern at one place: where, what was found there,
and what was expected. It is either something unexpected, or an ambiguity, when two or more
patterns claim the same input. Failures are data: validation never stops at one.

`Failure.toJson` is the structured form, an object with `path`, `found` and either `expected` or
`overlapping_patterns`; `Failure.ofJson?` reads it back, recovering the variant from the members
that are there.
-/

namespace JsonPattern

/-- What a place should have held. -/
inductive Expected
  /-- The one thing that was expected. -/
  | one (label : String)
  /-- Several things were possible. -/
  | oneOf (labels : LabelSet)
  deriving DecidableEq

namespace Expected

/-- What a label set expects: a single label stands for itself. -/
def ofLabels (labels : LabelSet) : Expected :=
  match labels.toList with
  | [label] => .one label
  | _ => .oneOf labels

/-- The text of an expectation. -/
def text : Expected → String
  | .one label => label
  | .oneOf labels => "one of: " ++ ", ".intercalate labels.toList

/-- Equality that compares label sets without their order. A single label is no set. -/
def equal : Expected → Expected → Bool
  | .one a, .one b => a == b
  | .oneOf s, .oneOf t => s.sameElements t
  | _, _ => false

end Expected

/-- Why a place fails. -/
inductive Cause
  /-- The chosen pattern does not match, or no alternative does. -/
  | unexpected (expected : Expected)
  /-- Two or more alternatives claim the same input; these are their labels. -/
  | ambiguity (overlapping : LabelSet)
  deriving DecidableEq

/-- One reason why a value does not conform. -/
structure Failure where
  /-- The place. -/
  path : Path
  /-- What was found there. -/
  found : String
  /-- Why that is not accepted. -/
  cause : Cause
  deriving DecidableEq

namespace Failure

/-- A place that holds something else than the one thing expected. -/
def unexpected (path : Path) (found : String) (expected : String) : Failure :=
  ⟨path, found, .unexpected (.one expected)⟩

/-- A place that holds nothing of what a label set expects. -/
def unexpectedOf (path : Path) (found : String) (expected : LabelSet) : Failure :=
  ⟨path, found, .unexpected (.ofLabels expected)⟩

/-- A place that several alternatives claim. -/
def ambiguous (path : Path) (found : String) (overlapping : LabelSet) : Failure :=
  ⟨path, found, .ambiguity overlapping⟩

/-- Whether the failure is an ambiguity. -/
def isAmbiguity (failure : Failure) : Bool :=
  match failure.cause with
  | .ambiguity _ => true
  | .unexpected _ => false

/-- The text of a failure. -/
def text (failure : Failure) : String :=
  match failure.cause with
  | .unexpected expected =>
    "at " ++ failure.path.text ++ "; found " ++ failure.found ++ "; expected " ++ expected.text
  | .ambiguity overlapping =>
    "ambiguous patterns at " ++ failure.path.text ++ "; found " ++ failure.found ++
      "; overlapping patterns: " ++ ", ".intercalate overlapping.toList

/-- Equality that compares label sets without their order. -/
def equal (a b : Failure) : Bool :=
  a.path == b.path && a.found == b.found &&
    match a.cause, b.cause with
    | .unexpected e, .unexpected e' => e.equal e'
    | .ambiguity s, .ambiguity t => s.sameElements t
    | _, _ => false

end Failure

/-! ### Texts shared by the reports on objects -/

/-- What is said of an object whose members are used up, and what is expected of one that has
members left. -/
def endOfMembers : String := "end of object members"

/-- What is found where only the names of the members left matter. -/
def namesText (names : List String) : String :=
  if names.isEmpty then endOfMembers else "names: " ++ ", ".intercalate names

/-- The label of a member of the given name. -/
def nameLabel (name : String) : String := "name:\"" ++ name ++ "\""

/-! ### Structured form -/

/-- The structured form of a label set. -/
def LabelSet.toJson (labels : LabelSet) : Json := .array (labels.toList.map .string)


/-- Reads a label set from a list of strings; repeats are dropped. -/
def LabelSet.ofJson? : Json → Option LabelSet
  | .array items => (items.mapM Json.string?).map LabelSet.ofList
  | _ => none

/-- The structured form of an expectation: a string, or a list of strings. -/
def Expected.toJson : Expected → Json
  | .one label => .string label
  | .oneOf labels => labels.toJson

/-- Reads an expectation from its structured form. A list stays a list, whatever its length. -/
def Expected.ofJson? : Json → Option Expected
  | .string label => some (.one label)
  | value => (LabelSet.ofJson? value).map .oneOf

namespace Cause

/-- The member that a cause contributes to the structured form of its failure. -/
def toMember : Cause → String × Json
  | .unexpected expected => ("expected", expected.toJson)
  | .ambiguity overlapping => ("overlapping_patterns", overlapping.toJson)

/-- Reads the cause from the members of a structured failure. What was expected takes precedence;
it is passed over where it is missing or unreadable. -/
def ofMembers? (members : Members) : Option Cause :=
  match members.lookup "expected" >>= Expected.ofJson? with
  | some expected => some (.unexpected expected)
  | none => (members.lookup "overlapping_patterns" >>= LabelSet.ofJson?).map .ambiguity

end Cause

namespace Failure

/-- The structured form of a failure. -/
def toJson (failure : Failure) : Json :=
  .object [("path", failure.path.toJson), ("found", .string failure.found),
    failure.cause.toMember]

/-- Reads a failure from its structured form; other members are ignored. -/
def ofJson? : Json → Option Failure
  | .object members => do
    let path ← members.lookup "path" >>= Path.ofJson?
    let found ← members.lookup "found" >>= Json.string?
    let cause ← Cause.ofMembers? members
    return ⟨path, found, cause⟩
  | _ => none

end Failure

end JsonPattern
