import JsonPattern.Path
import JsonPattern.Pattern.Basic

/-!
# Faults of pattern graphs

A fault is a defect of a pattern graph together with the node that shows it. Faults stop the
construction of a validator; they are never reported as failures of a value. An `ErrorRecord` is
the written form of a fault: its kind, a message, and the node, which a record read from elsewhere
may lack.
-/

namespace JsonPattern

/-- The kinds of fault. -/
inductive ErrorKind
  | unknownPattern
  | unfilledSlot
  | slotAlreadyFilled
  | invalidRegex
  | nonScalarLiteral
  | invalidFlatten
  | misplacedMany
  | emptyAlternatives
  | unguardedCycle
  deriving DecidableEq, Repr

namespace ErrorKind

/-- All kinds of fault. -/
def all : List ErrorKind :=
  [.unknownPattern, .unfilledSlot, .slotAlreadyFilled, .invalidRegex, .nonScalarLiteral,
    .invalidFlatten, .misplacedMany, .emptyAlternatives, .unguardedCycle]

/-- The name of a kind of fault. -/
def label : ErrorKind → String
  | .unknownPattern => "unknown_pattern"
  | .unfilledSlot => "unfilled_slot"
  | .slotAlreadyFilled => "slot_already_filled"
  | .invalidRegex => "invalid_regex"
  | .nonScalarLiteral => "non_scalar_literal"
  | .invalidFlatten => "invalid_flatten"
  | .misplacedMany => "misplaced_many"
  | .emptyAlternatives => "empty_alternatives"
  | .unguardedCycle => "unguarded_cycle"

end ErrorKind

/-- What is wrong with a node. -/
inductive Defect
  /-- The graph has no node of that id. -/
  | unknownPattern
  /-- The slot was reserved and has no pattern yet. -/
  | unfilledSlot
  /-- The slot already has a pattern. -/
  | slotAlreadyFilled
  /-- The source is refused as a regular expression, with what the engine has to say about it. -/
  | invalidRegex (source : String) (explanation : Option String)
  /-- The literal is an array or an object. -/
  | nonScalarLiteral (value : Json)
  /-- A flatten clause leads to a node that is neither an object nor a disjunction. -/
  | invalidFlatten (target : NodeId)
  /-- A clause for all remaining members has clauses after it. -/
  | misplacedMany
  /-- A disjunction has no alternative. -/
  | noAlternatives
  /-- An alternation of clauses has no group. -/
  | noGroups
  /-- The chain of cyclic references that begins here never reaches a body. -/
  | endlessReference
  /-- The node is on a cycle that never descends into the value. -/
  | unguardedCycle

namespace Defect

/-- The kind of a defect. -/
def kind : Defect → ErrorKind
  | .unknownPattern => .unknownPattern
  | .unfilledSlot => .unfilledSlot
  | .slotAlreadyFilled => .slotAlreadyFilled
  | .invalidRegex _ _ => .invalidRegex
  | .nonScalarLiteral _ => .nonScalarLiteral
  | .invalidFlatten _ => .invalidFlatten
  | .misplacedMany => .misplacedMany
  | .noAlternatives => .emptyAlternatives
  | .noGroups => .emptyAlternatives
  | .endlessReference => .unguardedCycle
  | .unguardedCycle => .unguardedCycle

/-- The wording of a defect. -/
def message : Defect → String
  | .unknownPattern => "id does not belong to this graph"
  | .unfilledSlot => "reserved slot was never filled"
  | .slotAlreadyFilled => "slot already holds a pattern"
  | .invalidRegex source explanation =>
    "invalid regex /" ++ source ++ "/" ++ explanation.elim "" (": " ++ ·)
  | .nonScalarLiteral value => "literal must be a scalar, got " ++ value.text
  | .invalidFlatten target =>
    "flatten target " ++ target.text ++ " must be an object or a disjunction of objects"
  | .misplacedMany => "a many-members clause must be the last clause of its list"
  | .noAlternatives => "one_of needs at least one alternative"
  | .noGroups => "one_of needs at least one member group"
  | .endlessReference => "cyclic references never reach a pattern body"
  | .unguardedCycle => "cycle through one_of or flatten never descends into the value"

end Defect

/-- A defect and the node that shows it. -/
structure Fault where
  /-- The node. -/
  node : NodeId
  /-- What is wrong with it. -/
  defect : Defect

/-- The written form of a fault. -/
structure ErrorRecord where
  /-- The kind of fault. -/
  kind : ErrorKind
  /-- What is wrong. -/
  message : String
  /-- The node concerned, if it is known. -/
  node : Option NodeId
  deriving DecidableEq

/-- The written form of a fault. -/
def Fault.record (fault : Fault) : ErrorRecord :=
  ⟨fault.defect.kind, fault.defect.message, some fault.node⟩

/-! ### Structured form -/

/-- The name of a constant in structured form: a string, or an object with that one name, whose
value is null. -/
def Json.constant? : Json → Option String
  | .string name => some name
  | .object [(name, .null)] => some name
  | _ => none

/-- Reads a kind of value from its structured form. -/
def Kind.ofJson? (value : Json) : Option Kind := do
  let name ← value.constant?
  Kind.all.find? fun kind ↦ kind.label == name

/-- Reads the name of a type from its structured form. -/
def TypeName.ofJson? (value : Json) : Option TypeName := do
  let name ← value.constant?
  TypeName.all.find? fun type ↦ type.label == name

/-- Reads a kind of fault from its structured form. -/
def ErrorKind.ofJson? (value : Json) : Option ErrorKind := do
  let name ← value.constant?
  ErrorKind.all.find? fun kind ↦ kind.label == name

/-- Reads an id from its structured form. -/
def NodeId.ofJson? (value : Json) : Option NodeId := value.word?.map NodeId.mk

/-- Reads an id that may be missing. -/
def NodeId.optionOfJson? : Json → Option (Option NodeId)
  | .null => some none
  | value => (NodeId.ofJson? value).map some

namespace ErrorRecord

/-- The text of an error record. -/
def text (error : ErrorRecord) : String :=
  match error.node with
  | some id => "pattern " ++ id.text ++ ": " ++ error.message
  | none => error.message

/-- The structured form of an error record; a missing node is left out. -/
def toJson (error : ErrorRecord) : Json :=
  .object ([("kind", .string error.kind.label), ("message", .string error.message)] ++
    error.node.toList.map fun id ↦ ("pattern", id.toJson))

/-- Reads an error record from its structured form: an object, in which the node may be missing,
or a list of the three parts. -/
def ofJson? : Json → Option ErrorRecord
  | .object members => do
    let kind ← members.lookup "kind" >>= ErrorKind.ofJson?
    let message ← members.lookup "message" >>= Json.string?
    let node ← NodeId.optionOfJson? ((members.lookup "pattern").getD .null)
    return ⟨kind, message, node⟩
  | .array [kind, message, node] => do
    return ⟨← ErrorKind.ofJson? kind, ← message.string?, ← NodeId.optionOfJson? node⟩
  | _ => none

end ErrorRecord

end JsonPattern
