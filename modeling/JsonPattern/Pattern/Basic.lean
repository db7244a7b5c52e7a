import JsonPattern.Json.Equality
import JsonPattern.Pattern.Clause

/-!
# Patterns

A pattern describes the shape of a value. Its *shape* is what it says about the value at hand, with
references to the patterns of the parts; a pattern of a graph is either such a body, or a
*cyclic* reference, which stands for the node it names.
-/

namespace JsonPattern

/-- The names of types. -/
inductive TypeName
  | boolean
  | string
  | integer
  /-- Integers are floats too. -/
  | float
  /-- Integers and floats. -/
  | number
  | null
  | array
  | object
  /-- Strings that look like a mail address. -/
  | email
  /-- Strings that look like a location with a scheme. -/
  | url
  deriving DecidableEq, Repr

namespace TypeName

/-- All type names. -/
def all : List TypeName :=
  [.boolean, .string, .integer, .float, .number, .null, .array, .object, .email, .url]

/-- How a type is named in a report. -/
def label : TypeName → String
  | .boolean => "boolean"
  | .string => "string"
  | .integer => "integer"
  | .float => "float"
  | .number => "number"
  | .null => "null"
  | .array => "array"
  | .object => "object"
  | .email => "email"
  | .url => "url"

/-- Whether values of a kind can belong to the type. -/
def accepts : TypeName → Kind → Bool
  | .boolean, .boolean => true
  | .string, .string => true
  | .integer, .integer => true
  | .float, .integer | .float, .float => true
  | .number, .integer | .number, .float => true
  | .null, .null => true
  | .array, .array => true
  | .object, .object => true
  | .email, .string => true
  | .url, .string => true
  | _, _ => false

end TypeName

/-- What a pattern says about a value, referring to other patterns by references of type `ρ`. -/
inductive Shape (ρ : Type)
  /-- The value equal to a scalar. -/
  | literal (value : Json)
  /-- The values of a type. -/
  | type (name : TypeName)
  /-- The strings in which a regular expression matches somewhere. -/
  | regex (source : String)
  /-- The arrays all of whose items match. -/
  | arrayOf (element : ρ)
  /-- The objects whose members are taken up by the clauses. -/
  | object (clauses : List (Clause ρ))
  /-- One of several patterns, chosen by a shallow look at the value. -/
  | oneOf (alternatives : List ρ)
  /-- Every value. -/
  | anything

namespace Shape

variable {ρ σ : Type}

/-- Replaces every reference. -/
def map (f : ρ → σ) : Shape ρ → Shape σ
  | .literal value => .literal value
  | .type name => .type name
  | .regex source => .regex source
  | .arrayOf element => .arrayOf (f element)
  | .object clauses => .object (groupMap f clauses)
  | .oneOf alternatives => .oneOf (alternatives.map f)
  | .anything => .anything

/-- Replaces every reference by the result of an action, in declared order. -/
def mapM {m : Type → Type} [Monad m] (f : ρ → m σ) : Shape ρ → m (Shape σ)
  | .literal value => return .literal value
  | .type name => return .type name
  | .regex source => return .regex source
  | .arrayOf element => return .arrayOf (← f element)
  | .object clauses => return .object (← groupMapM f clauses)
  | .oneOf alternatives => return .oneOf (← alternatives.mapM f)
  | .anything => return .anything

/-- The references, in declared order. -/
def refs : Shape ρ → List ρ
  | .arrayOf element => [element]
  | .object clauses => groupRefs clauses
  | .oneOf alternatives => alternatives
  | _ => []

/-- The references that are followed without descending into the value: alternatives, and the
flatten targets of an object. -/
def unguardedRefs : Shape ρ → List ρ
  | .object clauses => groupFlattenTargets clauses
  | .oneOf alternatives => alternatives
  | _ => []

/-- Equality of shapes: literals by structural equality, all else as written. -/
def equal [BEq ρ] : Shape ρ → Shape ρ → Bool
  | .literal v, .literal w => v.equal w
  | .type s, .type t => s == t
  | .regex s, .regex t => s == t
  | .arrayOf a, .arrayOf b => a == b
  | .object c, .object d => groupEqual c d
  | .oneOf a, .oneOf b => a == b
  | .anything, .anything => true
  | _, _ => false

/-- The text of a shape whose references are already written. -/
def text : Shape String → String
  | .literal value => value.text
  | .type name => name.label
  | .regex source => "/" ++ source ++ "/"
  | .arrayOf element => "[" ++ element ++ "]"
  | .object clauses => groupText clauses
  | .oneOf alternatives => "one_of(" ++ " | ".intercalate alternatives ++ ")"
  | .anything => "anything"

end Shape

/-- The identity of a node of a pattern graph. -/
structure NodeId where
  /-- The position of the node in its graph, counted from zero. -/
  index : Nat
  deriving DecidableEq, Inhabited

/-- The text of an id. -/
def NodeId.text (id : NodeId) : String := "#" ++ toString id.index

/-- The structured form of an id. -/
def NodeId.toJson (id : NodeId) : Json := .integer id.index

/-- A node of a pattern graph. -/
inductive Pattern
  /-- A pattern with a body of its own. -/
  | body (shape : Shape NodeId)
  /-- Another reference to the node named. -/
  | cyclic (target : NodeId)

/-- Equality of patterns. -/
def Pattern.equal : Pattern → Pattern → Bool
  | .body s, .body t => s.equal t
  | .cyclic a, .cyclic b => a == b
  | _, _ => false

end JsonPattern
