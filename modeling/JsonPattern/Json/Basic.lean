import JsonPattern.Binary64.Basic

/-!
# JSON values

A JSON value is a tree whose leaves are the scalars. Integers and floats are different kinds of
number, told apart by the way they are written, and the members of an object keep the order in
which they are written. `Json.kind` sorts values into the seven kinds that a pattern can name, and
`Json.depth` is the nesting that bounds how far a validator descends.
-/

namespace JsonPattern

/-- A JSON value. -/
inductive Json
  | null
  | bool (b : Bool)
  | integer (n : Int)
  | float (x : Binary64)
  | string (s : String)
  | array (items : List Json)
  | object (members : List (String × Json))
  deriving Inhabited

/-- Members of an object in their order. -/
abbrev Members := List (String × Json)

/-- The names of the members, in their order. -/
def Members.names (members : Members) : List String := members.map Prod.fst

/-- The members that do not have the given name. -/
def Members.without (members : Members) (name : String) : Members :=
  members.filter fun member ↦ member.1 != name

/-- The seven kinds of JSON value. -/
inductive Kind
  | object
  | array
  | string
  | integer
  | float
  | boolean
  | null
  deriving DecidableEq, Repr

/-- All kinds. -/
def Kind.all : List Kind := [.object, .array, .string, .integer, .float, .boolean, .null]

/-- The name of a kind, as it is written in a report. -/
def Kind.label : Kind → String
  | .object => "object"
  | .array => "array"
  | .string => "string"
  | .integer => "integer"
  | .float => "float"
  | .boolean => "boolean"
  | .null => "null"

namespace Json

/-- The kind of a value. -/
def kind : Json → Kind
  | .null => .null
  | .bool _ => .boolean
  | .integer _ => .integer
  | .float _ => .float
  | .string _ => .string
  | .array _ => .array
  | .object _ => .object

/-- Whether a value is neither an array nor an object. -/
def isScalar : Json → Bool
  | .array _ | .object _ => false
  | _ => true

/-- Whether a value is an object. -/
def isObject : Json → Bool
  | .object _ => true
  | _ => false

/-- Whether a value is an array. -/
def isArray : Json → Bool
  | .array _ => true
  | _ => false

mutual

/-- The number of containers around the most deeply nested place of a value. -/
def depth : Json → Nat
  | .array items => itemsDepth items + 1
  | .object members => membersDepth members + 1
  | _ => 0
termination_by structural value => value

/-- The greatest depth of a list of values. -/
def itemsDepth : List Json → Nat
  | [] => 0
  | item :: items => max (depth item) (itemsDepth items)
termination_by structural items => items

/-- The greatest depth of the values of a list of members. -/
def membersDepth : List (String × Json) → Nat
  | [] => 0
  | (_, value) :: members => max (depth value) (membersDepth members)
termination_by structural members => members

end

end Json

end JsonPattern
