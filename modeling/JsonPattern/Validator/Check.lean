import JsonPattern.Pattern.Basic
import JsonPattern.Regex.Engine

/-!
# Checks

A check is a shape made ready for use: the sources of regular expressions are read, and the types
that are told by the look of a string have become regular expressions too. A `Table` gives the
check behind every reference; all that a validator does is defined for any table.
-/

namespace JsonPattern

/-- What is tested of a value, with references of type `ρ` to the checks of its parts. -/
inductive Check (ρ : Type)
  /-- The kind of the value is one that the type accepts. -/
  | kind (type : TypeName)
  /-- The value equals a literal. -/
  | literal (value : Json)
  /-- The value is a string in which the expression matches; reports call it by the label. -/
  | regex (matcher : Matcher) (label : String)
  /-- The value is an array whose items pass a check. -/
  | arrayOf (element : ρ)
  /-- The value is an object whose members are taken up by the clauses. -/
  | object (clauses : List (Clause ρ))
  /-- The value passes the one check among several that a shallow look selects. -/
  | oneOf (alternatives : List ρ)
  /-- Nothing is tested. -/
  | anything

namespace Check

variable {ρ σ : Type}

/-- Replaces every reference. -/
def map (f : ρ → σ) : Check ρ → Check σ
  | .kind type => .kind type
  | .literal value => .literal value
  | .regex matcher label => .regex matcher label
  | .arrayOf element => .arrayOf (f element)
  | .object clauses => .object (groupMap f clauses)
  | .oneOf alternatives => .oneOf (alternatives.map f)
  | .anything => .anything

/-- Whether the check is one of objects. -/
def isObject : Check ρ → Bool
  | .object _ => true
  | _ => false

end Check

section

variable (E : Engine) {ρ : Type}

/-- The check of a type. -/
def TypeName.check : TypeName → Check ρ
  | .email => .regex (E.matcher .email) TypeName.email.label
  | .url => .regex (E.matcher .url) TypeName.url.label
  | type => .kind type

/-- The check of a shape. A source that the engine refuses has none. -/
def Shape.check? : Shape ρ → Option (Check ρ)
  | .literal value => some (.literal value)
  | .type name => some (name.check E)
  | .regex source =>
    (E.read source).toOption.map fun matcher ↦ .regex matcher ("/" ++ source ++ "/")
  | .arrayOf element => some (.arrayOf element)
  | .object clauses => some (.object clauses)
  | .oneOf alternatives => some (.oneOf alternatives)
  | .anything => some .anything

end

/-- The checks behind references of type `ρ`. -/
structure Table (ρ : Type) where
  /-- The check behind a reference. -/
  check : ρ → Check ρ
  /-- How many references are followed in a row without descending into the value. The number of
  checks is enough if no chain of such references comes back to its start. -/
  hops : Nat

end JsonPattern
