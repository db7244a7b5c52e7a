import JsonPattern.Validator.Dispatch

/-!
# Verdicts

`Table.failures` finds every divergence of a value from a check, in the order of a walk through the
value. The clauses of an object take its members from left to right, each from what the one before
has left; what remains at the end is a failure too. A named clause takes its member, an optional
group acts only if one of its first names is present, a clause for all members takes what is left,
a flattened check takes the members that its own clauses take, and alternatives are chosen by
dispatch.

The walk descends into the value, so the depth of the value bounds it; at one place it follows
references between disjunctions and flattened checks, which the number of checks bounds.
-/

namespace JsonPattern

/-- How the parts of a value are checked: by a reference, at a path. -/
abbrev PartCheck (ρ : Type) := ρ → Path → Json → List Failure

namespace Table

variable {ρ : Type} [DecidableEq ρ] (T : Table ρ)

section Clauses

variable (deeper : PartCheck ρ) (ofTarget : ρ → Members → Outcome) (path : Path)

mutual

/-- How a clause takes members, given how the parts of the value and flattened checks are
treated. -/
def takeClause : Clause ρ → Members → Outcome
  | .named name value, members =>
    match members.lookup name with
    | some part => ⟨members.without name, deeper value (path.member name) part⟩
    | none => ⟨members, [.unexpected path (namesText members.names) (nameLabel name)]⟩
  | .optional group, members =>
    if (T.present (.group group) members).isEmpty then .keep members else takeGroup group members
  | .many value, members =>
    ⟨[], members.flatMap fun (name, part) ↦ deeper value (path.member name) part⟩
  | .flatten target, members => ofTarget target members
  | .oneOf groups, members => T.dispatch path (takeEither groups) members
termination_by structural clause => clause

/-- How a list of clauses takes members: each clause from what those before it have left. -/
def takeGroup : List (Clause ρ) → Members → Outcome
  | [], members => .keep members
  | clause :: group, members => (takeClause clause members).andThen (takeGroup group)
termination_by structural group => group

/-- The groups of an alternation as alternatives of a dispatch. -/
def takeEither : List (List (Clause ρ)) → List (Alternative ρ)
  | [] => []
  | group :: groups => ⟨.group group, takeGroup group⟩ :: takeEither groups
termination_by structural groups => groups

end

end Clauses

section Flattened

variable (deeper : PartCheck ρ) (path : Path)

/-- How a flattened check takes members, over at most `hops` references. -/
def takeTargetWithin : Nat → ρ → Members → Outcome
  | 0, _, members => .keep members
  | hops + 1, r, members =>
    match T.check r with
    | .object clauses => T.takeGroup deeper (takeTargetWithin hops) path clauses members
    | .oneOf alternatives =>
      T.dispatch path (alternatives.map fun a ↦ ⟨.ref a, takeTargetWithin hops a⟩) members
    | _ => .keep members

/-- How a view takes members. -/
def takeView : View ρ → Members → Outcome
  | .group clauses => T.takeGroup deeper (T.takeTargetWithin deeper path T.hops) path clauses
  | .ref target => T.takeTargetWithin deeper path T.hops target

/-- The failures of an object whose members are taken: those met on the way, and one if members
are left. -/
def closeObject (outcome : Outcome) : List Failure :=
  if outcome.rest.isEmpty then outcome.failures
  else outcome.failures ++ [.unexpected path (namesText outcome.rest.names) endOfMembers]

end Flattened

/-- The failure of a value that does not equal a literal: of the same kind, both are written out;
otherwise their kinds tell them apart. -/
def literalFailure (path : Path) (literal value : Json) : Failure :=
  if literal.kind = value.kind then .unexpected path value.text literal.text
  else .unexpected path value.kind.label literal.kind.label

/-- The labels of a branch. -/
def branchLabels : Branch ρ → LabelSet
  | .single r => T.labels r
  | .objects rs => T.labelsOf rs

/-- The failures of a value at a path against a check, given how the parts of the value are treated,
over at most `hops` references between disjunctions. -/
def failuresHere (deeper : PartCheck ρ) : Nat → PartCheck ρ
  | 0, _, _, _ => []
  | hops + 1, r, path, value =>
    match T.check r with
    | .kind type =>
      if type.accepts value.kind then [] else [.unexpected path value.kind.label type.label]
    | .literal literal => if literal.equal value then [] else [literalFailure path literal value]
    | .regex r label =>
      match value with
      | .string s => if r.isMatch s then [] else [.unexpected path value.text label]
      | _ => [.unexpected path value.kind.label "string"]
    | .arrayOf element =>
      match value with
      | .array items => items.zipIdx.flatMap fun (item, i) ↦ deeper element (path.item i) item
      | _ => [.unexpected path value.kind.label "array"]
    | .object clauses =>
      match value with
      | .object members =>
        closeObject path (T.takeView deeper path (.group clauses) members)
      | _ => [.unexpected path value.kind.label "object"]
    | .oneOf alternatives =>
      match T.branches alternatives value, value with
      | [], _ => [.unexpectedOf path value.shallowText (T.labelsOf alternatives)]
      | [.single only], _ => failuresHere deeper hops only path value
      | [.objects objects], .object members =>
        closeObject path (T.dispatch path
          (objects.map fun o ↦ ⟨.ref o, T.takeView deeper path (.ref o)⟩) members)
      | [.objects _], _ => []
      | branches, _ =>
        [.ambiguous path value.shallowText (.unions (branches.map T.branchLabels))]
    | .anything => []

/-- The failures of a value at a path against a check, descending at most `depth` levels. -/
def failuresWithin : Nat → PartCheck ρ
  | 0 => fun _ _ _ ↦ []
  | depth + 1 => T.failuresHere (failuresWithin depth) T.hops

/-- The failures of a value at a path against a check. -/
def failures (r : ρ) (path : Path) (value : Json) : List Failure :=
  T.failuresWithin (value.depth + 1) r path value

end Table

/-- A validator: checks in numbered slots, one of which is the root. -/
structure Validator where
  /-- The checks, which refer to each other by slot. -/
  checks : Array (Check Nat)
  /-- The slot of the root. -/
  root : Nat

namespace Validator

/-- The number of checks. -/
def size (V : Validator) : Nat := V.checks.size

/-- Whether there is no check. -/
def isEmpty (V : Validator) : Bool := V.checks.isEmpty

/-- The checks by slot. -/
def table (V : Validator) : Table Nat := ⟨fun slot ↦ V.checks.getD slot .anything, V.size⟩

/-- The failures of a value, as if it were found at a path. -/
def validateAt (V : Validator) (path : Path) (value : Json) : List Failure :=
  V.table.failures V.root path value

/-- The failures of a value. It conforms if there are none. -/
def validate (V : Validator) (value : Json) : List Failure := V.validateAt .root value

/-- Whether a value conforms. -/
def isValid (V : Validator) (value : Json) : Bool := (V.validate value).isEmpty

/-- Whether a value fits the root at a shallow look. -/
def fits (V : Validator) (value : Json) : Bool := V.table.fits V.root value

/-- The labels of the root. -/
def labels (V : Validator) : LabelSet := V.table.labels V.root

end Validator

end JsonPattern
