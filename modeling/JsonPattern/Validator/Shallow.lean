import JsonPattern.LabelSet
import JsonPattern.Validator.Check

/-!
# Shallow looks

A disjunction picks its branch by a look at the value that does not descend into it: `Table.fits`
tests the kind of a container and all of a scalar. A disjunction fits if exactly one of its branches
does.

Object alternatives are told apart by their members and not by a shallow look, so against an object
they form a single branch. For that grouping nested disjunctions are opened in place, which is what
`Table.splice` does; the group stands where the first object stood.
-/

namespace JsonPattern

/-- A branch of a disjunction. -/
inductive Branch (ρ : Type)
  /-- A single check. -/
  | single (check : ρ)
  /-- Several checks of objects, between which the members decide. -/
  | objects (checks : List ρ)
  deriving DecidableEq

namespace Table

variable {ρ : Type} (T : Table ρ)

/-! ### Labels -/

/-- The labels of a check, disjunctions being opened over at most `hops` references. -/
def labelsWithin : Nat → ρ → LabelSet
  | 0, _ => ∅
  | hops + 1, r =>
    match T.check r with
    | .kind type => .singleton type.label
    | .literal value => .singleton value.text
    | .regex _ label => .singleton label
    | .arrayOf _ => .singleton "array"
    | .object _ => .singleton "object"
    | .oneOf alternatives => .unions (alternatives.map (labelsWithin hops))
    | .anything => .singleton "anything"

/-- The short labels by which a check is called in reports. -/
def labels (r : ρ) : LabelSet := T.labelsWithin T.hops r

/-- The labels of several checks, in order. -/
def labelsOf (rs : List ρ) : LabelSet := .unions (rs.map T.labels)

/-! ### Splicing -/

/-- The leaves below a check, from left to right, each as often as it is met. -/
def leavesWithin : Nat → ρ → List ρ
  | 0, r => [r]
  | hops + 1, r =>
    match T.check r with
    | .oneOf alternatives => alternatives.flatMap (leavesWithin hops)
    | _ => [r]

/-- The leaves below several checks. -/
def leaves (rs : List ρ) : List ρ := rs.flatMap (T.leavesWithin T.hops)

section Splice

variable [DecidableEq ρ]

/-- Adds the leaves below a check to a list, each unless it is there already. -/
def spliceInto : Nat → List ρ → ρ → List ρ
  | 0, done, r => if r ∈ done then done else done ++ [r]
  | hops + 1, done, r =>
    match T.check r with
    | .oneOf alternatives => alternatives.foldl (spliceInto hops) done
    | _ => if r ∈ done then done else done ++ [r]

/-- The leaves below several checks, each once, in the order in which they are first met. -/
def splice (rs : List ρ) : List ρ := rs.foldl (T.spliceInto T.hops) []

/-! ### Branches -/

/-- Whether the check behind a reference is one of objects. -/
def isObject (r : ρ) : Bool := (T.check r).isObject

/-- The branches among leaves that fit an object: those that pass the shallow look, and a single
branch for all checks of objects, at the place of the first of them. -/
def groupBranches (fits : ρ → Bool) (leaves : List ρ) : List (Branch ρ) :=
  let singles (rs : List ρ) := (rs.filter fun r ↦ !T.isObject r && fits r).map Branch.single
  let before := leaves.takeWhile fun r ↦ !T.isObject r
  let after := leaves.dropWhile fun r ↦ !T.isObject r
  match leaves.filter T.isObject with
  | [] => singles leaves
  | [only] => singles before ++ .single only :: singles after
  | objects => singles before ++ .objects objects :: singles after

/-- The branches among alternatives that fit a value, by a given shallow look. -/
def branchesBy (fits : ρ → Bool) (alternatives : List ρ) (value : Json) : List (Branch ρ) :=
  if value.isObject then T.groupBranches fits (T.splice alternatives)
  else (alternatives.filter fits).map .single

/-- Whether a value fits a check at a shallow look, over at most `hops` references. -/
def fitsWithin : Nat → ρ → Json → Bool
  | 0, _, _ => false
  | hops + 1, r, value =>
    match T.check r with
    | .kind type => type.accepts value.kind
    | .literal literal => literal.equal value
    | .regex r _ =>
      match value with
      | .string s => r.isMatch s
      | _ => false
    | .arrayOf _ => value.isArray
    | .object _ => value.isObject
    | .oneOf alternatives =>
      (T.branchesBy (fun a ↦ fitsWithin hops a value) alternatives value).length == 1
    | .anything => true

/-- Whether a value fits a check at a shallow look. -/
def fits (r : ρ) (value : Json) : Bool := T.fitsWithin T.hops r value

/-- The branches among alternatives that fit a value. -/
def branches (alternatives : List ρ) (value : Json) : List (Branch ρ) :=
  T.branchesBy (fun a ↦ T.fits a value) alternatives value

end Splice

end Table

end JsonPattern
