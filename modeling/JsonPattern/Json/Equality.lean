import JsonPattern.Json.Basic

/-!
# Structural equality

Two values are equal if they are of the same kind and agree at every place. An integer never
equals a float, the two zeros are equal, and the order of the members of an object does not
matter: two objects are equal if they have equally many members and every member of the first has
a partner of the same name and an equal value in the second.
-/

namespace JsonPattern

namespace Json

mutual

/-- Structural equality of values. -/
def equal : Json → Json → Bool
  | .null, .null => true
  | .bool a, .bool b => a == b
  | .integer m, .integer n => m == n
  | .float x, .float y => x.equal y
  | .string s, .string t => s == t
  | .array xs, .array ys => equalItems xs ys
  | .object ms, .object ns => ms.length == ns.length && equalMembers ms ns
  | _, _ => false
termination_by structural value => value

/-- Equality of lists of values, position by position. -/
def equalItems : List Json → List Json → Bool
  | [], [] => true
  | x :: xs, y :: ys => equal x y && equalItems xs ys
  | _, _ => false
termination_by structural items => items

/-- Whether every member of the first list has an equal partner in the second. -/
def equalMembers : List (String × Json) → List (String × Json) → Bool
  | [], _ => true
  | (name, x) :: ms, ns =>
    (match ns.lookup name with
      | some y => equal x y
      | none => false) && equalMembers ms ns
termination_by structural members => members

end

end Json

end JsonPattern
