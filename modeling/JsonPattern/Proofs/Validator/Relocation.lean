import JsonPattern.Validator.Verdict

/-!
# Validation at a path

Nothing that a validator does depends on the path that it starts from: paths are only extended, step
by step, and written into failures. So a value that is found below some place has the failures that
it has by itself, each of them moved below this place. The walk is followed through all functions
that hand the path on, first through a dispatch, whose alternatives are moved one by one, then
through clauses, flattened checks and disjunctions, and last down the levels of the value.

## Main definitions

* `Failure.under`, `Outcome.under` : what is seen of a value below a place from outside.
* `PartCheck.Relocates` : the parts of a value have the same failures at every path.

## Main results

* `Table.dispatch_under` : a dispatch below a place.
* `Table.takeView_under` : members taken below a place.
* `Table.failures_under` : the failures of a value below a place.
* `Validator.validateAt_append` : a path given in front only moves the failures.
-/

namespace JsonPattern

/-! ### Paths below a place -/

/-- The steps of one path and then those of another. -/
instance : Append Path := ⟨fun base path ↦ ⟨base.steps ++ path.steps⟩⟩

namespace Path

@[simp]
theorem append_root (base : Path) : base ++ root = base :=
  congrArg Path.mk (List.append_nil base.steps)

theorem append_child (base path : Path) (step : Step) :
    base ++ path.child step = (base ++ path).child step :=
  congrArg Path.mk (List.append_assoc base.steps path.steps [step]).symm

@[simp]
theorem append_member (base path : Path) (name : String) :
    base ++ path.member name = (base ++ path).member name :=
  append_child base path (.name name)

@[simp]
theorem append_item (base path : Path) (i : Nat) : base ++ path.item i = (base ++ path).item i :=
  append_child base path (.index i)

end Path

/-- The failure of a value that stands below a place, seen from outside. -/
def Failure.under (base : Path) (failure : Failure) : Failure :=
  { failure with path := base ++ failure.path }

section Under

variable (base path : Path) (found : String)

@[simp]
theorem Failure.under_unexpected (expected : String) :
    (unexpected path found expected).under base = .unexpected (base ++ path) found expected := rfl

@[simp]
theorem Failure.under_unexpectedOf (expected : LabelSet) :
    (unexpectedOf path found expected).under base = .unexpectedOf (base ++ path) found expected :=
  rfl

@[simp]
theorem Failure.under_ambiguous (overlapping : LabelSet) :
    (ambiguous path found overlapping).under base = .ambiguous (base ++ path) found overlapping :=
  rfl

/-- What is left of the members below a place, with the failures seen from outside. -/
def Outcome.under (outcome : Outcome) : Outcome :=
  ⟨outcome.rest, outcome.failures.map (.under base)⟩

@[simp]
theorem Outcome.under_keep (members : Members) : (keep members).under base = .keep members := rfl

theorem Outcome.under_andThen {first first' : Outcome} {next next' : Members → Outcome}
    (hfirst : first' = first.under base)
    (hnext : ∀ members, next' members = (next members).under base) :
    first'.andThen next' = (first.andThen next).under base := by
  subst hfirst
  simp only [andThen, under, hnext, List.map_append]

end Under

/-- An alternative below a place, its failures seen from outside. -/
def Alternative.under {ρ : Type} (base : Path) (a : Alternative ρ) : Alternative ρ :=
  ⟨a.view, fun members ↦ (a.take members).under base⟩

/-- The parts of a value have the same failures at every path, up to the path. -/
def PartCheck.Relocates {ρ : Type} (base : Path) (deeper : PartCheck ρ) : Prop :=
  ∀ r path value, deeper r (base ++ path) value = (deeper r path value).map (.under base)

namespace Table

variable {ρ : Type} [DecidableEq ρ] {T : Table ρ} {base path : Path}

/-! ### Dispatch -/

theorem dispatchByValue_under (candidates : List (Alternative ρ)) (members : Members)
    (name : String) (value : Json) :
    T.dispatchByValue (base ++ path) (candidates.map (.under base)) members name value =
      (T.dispatchByValue path candidates members name value).under base := by
  have hlabels (as : List (Alternative ρ)) :
      T.valueLabels name (as.map (.under base)) = T.valueLabels name as := by
    rw [valueLabels, List.map_map]
    rfl
  have hfilter : (candidates.map (Alternative.under base)).filter
        (fun a ↦ T.opens name value a.view) =
      (candidates.filter fun a ↦ T.opens name value a.view).map (Alternative.under base) :=
    List.filter_map
  unfold dispatchByValue
  rw [hfilter, hlabels]
  generalize candidates.filter (fun a ↦ T.opens name value a.view) = matching
  rcases matching with _ | ⟨winner, _ | ⟨second, rest⟩⟩
  · simp [Outcome.under]
  · rfl
  · have hmatching := hlabels (winner :: second :: rest)
    simp only [List.map_cons] at hmatching
    simp [Outcome.under, hmatching]

/-- A dispatch below a place chooses the same alternative, or meets the same failure. -/
theorem dispatch_under (alternatives : List (Alternative ρ)) (members : Members) :
    T.dispatch (base ++ path) (alternatives.map (.under base)) members =
      (T.dispatch path alternatives members).under base := by
  have hlabels (as : List (Alternative ρ)) :
      T.openingLabels (as.map (.under base)) = T.openingLabels as := by
    rw [openingLabels, List.map_map]
    rfl
  have hfilter : (alternatives.map (Alternative.under base)).filter
        (fun a ↦ !(T.present a.view members).isEmpty) =
      (alternatives.filter fun a ↦ !(T.present a.view members).isEmpty).map
        (Alternative.under base) :=
    List.filter_map
  have hpresent : (alternatives.map (Alternative.under base)).map
        (fun a ↦ T.present a.view members) =
      alternatives.map fun a ↦ T.present a.view members := by
    rw [List.map_map]
    rfl
  unfold dispatch
  simp only [hfilter, hpresent, hlabels]
  split
  · rfl
  · split
    · exact dispatchByValue_under ..
    · rfl
  · rfl

/-! ### Clauses -/

section Clauses

variable {deeper : PartCheck ρ} {ofTarget ofTarget' : ρ → Members → Outcome}

mutual

theorem takeClause_under (hdeeper : deeper.Relocates base)
    (htarget : ∀ r members, ofTarget' r members = (ofTarget r members).under base) :
    ∀ (clause : Clause ρ) (members : Members),
      T.takeClause deeper ofTarget' (base ++ path) clause members =
        (T.takeClause deeper ofTarget path clause members).under base
  | .named name value, members => by
    rw [takeClause, takeClause]
    cases members.lookup name with
    | none => rfl
    | some part => simp only [Outcome.under, ← Path.append_member, hdeeper value]
  | .optional group, members => by
    rw [takeClause, takeClause]
    split
    · rfl
    · exact takeGroup_under hdeeper htarget group members
  | .many value, members => by
    simp only [takeClause, Outcome.under, ← Path.append_member, hdeeper value, List.map_flatMap]
  | .flatten target, members => htarget target members
  | .oneOf groups, members => by
    rw [takeClause, takeClause, takeEither_under hdeeper htarget groups]
    exact dispatch_under ..

/-- A list of clauses below a place takes the same members, and meets the same failures. -/
theorem takeGroup_under (hdeeper : deeper.Relocates base)
    (htarget : ∀ r members, ofTarget' r members = (ofTarget r members).under base) :
    ∀ (group : List (Clause ρ)) (members : Members),
      T.takeGroup deeper ofTarget' (base ++ path) group members =
        (T.takeGroup deeper ofTarget path group members).under base
  | [], _ => rfl
  | clause :: group, members =>
    Outcome.under_andThen base (takeClause_under hdeeper htarget clause members)
      (takeGroup_under hdeeper htarget group)

theorem takeEither_under (hdeeper : deeper.Relocates base)
    (htarget : ∀ r members, ofTarget' r members = (ofTarget r members).under base) :
    ∀ groups : List (List (Clause ρ)),
      T.takeEither deeper ofTarget' (base ++ path) groups =
        (T.takeEither deeper ofTarget path groups).map (.under base)
  | [] => rfl
  | group :: groups => by
    rw [takeEither, takeEither, List.map_cons, takeEither_under hdeeper htarget groups,
      funext (takeGroup_under hdeeper htarget group)]
    rfl

end

/-- A flattened check below a place takes the same members, and meets the same failures. -/
theorem takeTargetWithin_under (hdeeper : deeper.Relocates base) (hops : Nat) :
    ∀ r members, T.takeTargetWithin deeper (base ++ path) hops r members =
      (T.takeTargetWithin deeper path hops r members).under base := by
  induction hops with
  | zero => exact fun _ _ ↦ rfl
  | succ hops ih =>
    intro r members
    rw [takeTargetWithin, takeTargetWithin]
    cases T.check r with
    | object clauses => exact takeGroup_under hdeeper ih clauses members
    | oneOf alternatives =>
      simp only [funext (ih _)]
      rw [← dispatch_under, List.map_map]
      rfl
    | kind | literal | regex | arrayOf | anything => rfl

/-- A view below a place takes the same members, and meets the same failures. -/
theorem takeView_under (hdeeper : deeper.Relocates base) (view : View ρ) (members : Members) :
    T.takeView deeper (base ++ path) view members =
      (T.takeView deeper path view members).under base := by
  cases view with
  | group clauses =>
    exact takeGroup_under hdeeper (takeTargetWithin_under hdeeper T.hops) clauses members
  | ref target => exact takeTargetWithin_under hdeeper T.hops target members

end Clauses

/-! ### Values -/

theorem closeObject_under (outcome : Outcome) :
    closeObject (base ++ path) (outcome.under base) =
      (closeObject path outcome).map (.under base) := by
  rw [closeObject, closeObject]
  have hrest : (outcome.under base).rest = outcome.rest := rfl
  rw [hrest]
  split
  · rfl
  · simp [Outcome.under]

theorem literalFailure_under (literal value : Json) :
    literalFailure (base ++ path) literal value =
      (literalFailure path literal value).under base := by
  rw [literalFailure, literalFailure]
  split <;> rfl

/-- At one level of a value, the failures below a place are those by itself, moved there. -/
theorem failuresHere_under {deeper : PartCheck ρ} (hdeeper : deeper.Relocates base) (hops : Nat) :
    (T.failuresHere deeper hops).Relocates base := by
  induction hops with
  | zero => exact fun _ _ _ ↦ rfl
  | succ hops ih =>
    intro r path value
    rw [failuresHere, failuresHere]
    cases T.check r with
    | kind type =>
      dsimp only
      split <;> rfl
    | literal literal =>
      dsimp only
      split
      · rfl
      · exact congrArg (fun failure ↦ [failure]) (literalFailure_under literal value)
    | regex r label =>
      cases value with
      | string s =>
        dsimp only
        split <;> rfl
      | null | bool | integer | float | array | object => rfl
    | arrayOf element =>
      cases value with
      | array items =>
        simp only [← Path.append_item, hdeeper element, List.map_flatMap]
      | null | bool | integer | float | string | object => rfl
    | object clauses =>
      cases value with
      | object members =>
        dsimp only
        rw [takeView_under hdeeper, closeObject_under]
      | null | bool | integer | float | string | array => rfl
    | oneOf alternatives =>
      dsimp only
      have hdispatch (objects : List ρ) (members : Members) :
          T.dispatch (base ++ path) (objects.map fun o ↦
              ⟨.ref o, T.takeView deeper (base ++ path) (.ref o)⟩) members =
            (T.dispatch path (objects.map fun o ↦ ⟨.ref o, T.takeView deeper path (.ref o)⟩)
              members).under base := by
        rw [← dispatch_under, List.map_map]
        simp only [funext (takeView_under hdeeper _)]
        rfl
      split
      · rfl
      · exact ih _ path _
      · rw [hdispatch, closeObject_under]
      · rfl
      · rfl
    | anything => rfl

theorem failuresWithin_under (depth : Nat) : (T.failuresWithin depth).Relocates base := by
  induction depth with
  | zero => exact fun _ _ _ ↦ rfl
  | succ depth ih => exact failuresHere_under ih T.hops

/-- The failures of a value below a place are those of the value by itself, moved there. -/
theorem failures_under (r : ρ) (base path : Path) (value : Json) :
    T.failures r (base ++ path) value = (T.failures r path value).map (.under base) :=
  failuresWithin_under (value.depth + 1) r path value

end Table

namespace Validator

/-- A path given in front only moves the failures: the value has them in the same order, with the
same texts and labels, each at its place below this path. From the root alone, these are the
failures of the value by itself. -/
theorem validateAt_append (V : Validator) (base path : Path) (value : Json) :
    V.validateAt (base ++ path) value = (V.validateAt path value).map (.under base) ∧
      V.validateAt base value = (V.validate value).map (.under base) := by
  have happend (path : Path) :
      V.validateAt (base ++ path) value = (V.validateAt path value).map (.under base) :=
    Table.failures_under V.root base path value
  have hroot := happend .root
  rw [Path.append_root] at hroot
  exact ⟨happend path, hroot⟩

end Validator

end JsonPattern
