import JsonPattern.Failure
import JsonPattern.Validator.Opening

/-!
# Dispatch

Between alternatives that take members of an object the choice is made in two steps, without trying
any of them. First by name: of all names that may open an alternative, exactly one must be present
among the members. Then by value: exactly one of the alternatives that this name may open must be
opened by the value under it. The alternative chosen then takes its members; if there is none, one
failure says why, and the member that was to decide, if there was one, is used up.
-/

namespace JsonPattern

/-- What is left of the members of an object, and the failures met on the way. -/
structure Outcome where
  /-- The members that are left, in the order of the object. -/
  rest : Members
  /-- The failures, in the order in which they were met. -/
  failures : List Failure

namespace Outcome

/-- Nothing is taken and nothing fails. -/
def keep (members : Members) : Outcome := ⟨members, []⟩

/-- The failures of one step before those of the next, which takes from what the first left. -/
def andThen (first : Outcome) (next : Members → Outcome) : Outcome :=
  let second := next first.rest
  ⟨second.rest, first.failures ++ second.failures⟩

end Outcome

/-- One of the alternatives between which the members decide: how it is opened, and how it takes
members once it is chosen. -/
structure Alternative (ρ : Type) where
  /-- What opens the alternative. -/
  view : View ρ
  /-- How the alternative takes members. -/
  take : Members → Outcome

namespace Table

variable {ρ : Type} [DecidableEq ρ] (T : Table ρ)

/-- The labels of the names that may open one of several alternatives. -/
def openingLabels (alternatives : List (Alternative ρ)) : LabelSet :=
  .unions (alternatives.map fun a ↦ .ofList ((T.firstNames a.view).toList.map nameLabel))

/-- The labels of the checks that may apply to the member that opens one of several alternatives. -/
def valueLabels (name : String) (alternatives : List (Alternative ρ)) : LabelSet :=
  .unions (alternatives.map fun a ↦ T.labelsOf (T.firstChecks name a.view))

/-- Chooses among the alternatives that the member `name` may open by the value under it. -/
def dispatchByValue (path : Path) (candidates : List (Alternative ρ)) (members : Members)
    (name : String) (value : Json) : Outcome :=
  match candidates.filter fun a ↦ T.opens name value a.view with
  | [] => ⟨members.without name,
      [.unexpectedOf (path.member name) value.shallowText (T.valueLabels name candidates)]⟩
  | [winner] => winner.take members
  | matching => ⟨members.without name,
      [.ambiguous (path.member name) value.shallowText (T.valueLabels name matching)]⟩

/-- Chooses among alternatives by the names that are present, then by the value under the one
name. If no alternative can be opened by any name at all, only the end of the object was
possible. -/
def dispatch (path : Path) (alternatives : List (Alternative ρ)) (members : Members) : Outcome :=
  let candidates := alternatives.filter fun a ↦ !(T.present a.view members).isEmpty
  match (LabelSet.unions (alternatives.map fun a ↦ T.present a.view members)).toList with
  | [] =>
    let labels := T.openingLabels alternatives
    let expected := if labels.isEmpty then .singleton endOfMembers else labels
    ⟨members, [.unexpectedOf path (namesText members.names) expected]⟩
  | [name] =>
    match members.lookup name with
    | some value => T.dispatchByValue path candidates members name value
    | none => .keep members
  | names => ⟨members, [.ambiguous path (namesText names) (T.openingLabels candidates)]⟩

end Table

end JsonPattern
