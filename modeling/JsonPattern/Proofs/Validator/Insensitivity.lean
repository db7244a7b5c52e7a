import JsonPattern.Proofs.Validator.Reordering
import JsonPattern.Proofs.Validator.Verdict

/-!
# Verdicts in another order

Through tables that are reorderings of each other, members that are compared are taken in the same
way and values that are compared have failures that are compared. Every decision is a count, or a
test of a set: of the names that are present, of the alternatives that a member opens, of the
branches that a value fits.

## Main definitions

* `Comparison.Outcomes` : what is left, and the failures on the way, are compared.
* `Table.ActsLike` : alternatives that take members that are compared in the same way.

## Main results

* `Table.Reordered.dispatch_outcomes` : alternatives that act alike, in whatever order, make the
  same dispatch.
* `Table.takeGroup_outcomes` : clauses and their reordering take members in the same way.
* `Table.Reordered.failuresHere_compared` : one level of a value, from one lemma for each kind of
  check.
* `Table.Reordered.failures_compared` : the failures of values that are compared are compared.
-/

namespace JsonPattern

variable {ρ : Type}

/-- What is left, and the failures met on the way, are compared. -/
structure Comparison.Outcomes (C : Comparison) (first second : Outcome) : Prop where
  /-- The members that are left are. -/
  rest : C.members first.rest second.rest
  /-- The failures are. -/
  failures : C.failures first.failures second.failures

namespace Comparison.Outcomes

variable {C : Comparison} {ms ns : Members}

theorem keep (h : C.members ms ns) : C.Outcomes (.keep ms) (.keep ns) := ⟨h, C.failures_nil⟩

theorem andThen {first second : Outcome} {next next' : Members → Outcome}
    (h : C.Outcomes first second)
    (hnext : ∀ ms ns, C.members ms ns → C.Outcomes (next ms) (next' ns)) :
    C.Outcomes (first.andThen next) (second.andThen next') where
  rest := (hnext _ _ h.rest).rest
  failures := C.failures_append _ _ _ _ h.failures (hnext _ _ h.rest).failures

/-- One failure is met where members are left. -/
theorem singleton {a b : Failure} (h : C.members ms ns) (hab : a.Alike C.loose b) :
    C.Outcomes ⟨ms, [a]⟩ ⟨ns, [b]⟩ :=
  ⟨h, C.failures_singleton _ _ hab⟩

theorem closeObject {first second : Outcome} {path : Path} (h : C.Outcomes first second) :
    C.failures (Table.closeObject path first) (Table.closeObject path second) := by
  rw [Table.closeObject, Table.closeObject, isEmpty_eq h.rest]
  split
  · exact h.failures
  · exact C.failures_append _ _ _ _ h.failures
      (C.failures_singleton _ _ (leftOver h.rest (.refl (.singleton endOfMembers))))

end Comparison.Outcomes

/-! ### Literals -/

/-- Scalars do not tell two values apart that have the same outsides. -/
theorem Json.Sides.literalFailure_eq {value : Json → Json → Prop}
    {members : Members → Members → Prop} {v w literal : Json} (h : Sides value members v w)
    (hliteral : literal.isScalar = true) {path : Path} :
    Table.literalFailure path literal v = Table.literalFailure path literal w := by
  cases h with
  | array | object => cases literal <;> first | rfl | cases hliteral
  | null | bool | integer | float | string => rfl

theorem Table.literalFailure_alike {loose : Failure → Prop} {path : Path} {literal : Json}
    (value : Json) : (Table.literalFailure path literal value).Alike loose
      (Table.literalFailure path literal value) := by
  rw [literalFailure]
  split
  · exact .unexpected _
  · exact .unexpected _

namespace Table

variable {C : Comparison} {T U : Table ρ}

/-! ### Dispatches -/

/-- Two alternatives are opened by what opens the other one, and take members that are compared in
the same way. -/
structure ActsLike [DecidableEq ρ] (T U : Table ρ) (C : Comparison) (a a' : Alternative ρ) :
    Prop where
  /-- One is opened by what opens the other one, but for an order. -/
  view : a.view.Reordered a'.view
  /-- They take members that are compared in the same way. -/
  take : ∀ ms ns, C.members ms ns → C.Outcomes (a.take ms) (a'.take ns)

variable [DecidableEq ρ]

namespace Reordered

variable (h : T.Reordered U) (hsuits : T.Suits C) {as bs : List (Alternative ρ)}
  (hacts : Matched (T.ActsLike U C) as bs) {ms ns : Members} (hmembers : C.members ms ns)

include h hacts

theorem openingLabels_same : (T.openingLabels as).Same (U.openingLabels bs) :=
  .unions_map hacts fun _ _ ha ↦ .ofList fun _ ↦
    ((h.firstNames_same ha.view).perm.map nameLabel).mem_iff

theorem valueLabels_same (name : String) : (T.valueLabels name as).Same (U.valueLabels name bs) :=
  .unions_map hacts fun _ _ ha ↦ h.labelsOf_same (h.firstChecks_perm ha.view name)

include hsuits hmembers

theorem dispatchByValue_outcomes {path : Path} {name : String} {v w : Json} (hvw : C.value v w) :
    C.Outcomes (T.dispatchByValue path as ms name v) (U.dispatchByValue path bs ns name w) := by
  have hmatching : Matched (T.ActsLike U C) (as.filter fun a ↦ T.opens name v a.view)
      (bs.filter fun b ↦ U.opens name w b.view) :=
    hacts.filter fun _ _ ha ↦ h.opens_eq hsuits hvw ha.view name
  have hwithout := C.without _ _ hmembers name
  have htext := (C.sides v w hvw).shallowText_eq
  unfold dispatchByValue
  rw [htext]
  generalize (as.filter fun a ↦ T.opens name v a.view) = matching at hmatching ⊢
  generalize (bs.filter fun b ↦ U.opens name w b.view) = matching' at hmatching ⊢
  rcases matching with _ | ⟨winner, _ | ⟨second, rest⟩⟩
  · obtain rfl := hmatching.eq_nil
    exact .singleton hwithout (.unexpectedOf (h.valueLabels_same hacts name))
  · obtain ⟨winner', rfl, hwinner⟩ := hmatching.exists_singleton
    exact hwinner.take ms ns hmembers
  · rcases matching' with _ | ⟨winner', _ | ⟨second', rest'⟩⟩
    · exact absurd hmatching.length_eq (by simp)
    · exact absurd hmatching.length_eq (by simp)
    · exact .singleton hwithout (.ambiguous (h.valueLabels_same hmatching name))

/-- Alternatives that act alike, in whatever order, make the same dispatch. -/
theorem dispatch_outcomes {path : Path} :
    C.Outcomes (T.dispatch path as ms) (U.dispatch path bs ns) := by
  have hpresent : ∀ a b, T.ActsLike U C a b → (T.present a.view ms).Same (U.present b.view ns) :=
    fun _ _ ha ↦ h.present_same ha.view hmembers
  have hnames := (LabelSet.Same.unions_map hacts hpresent).perm
  have hcandidates : Matched (T.ActsLike U C) (as.filter fun a ↦ !(T.present a.view ms).isEmpty)
      (bs.filter fun b ↦ !(U.present b.view ns).isEmpty) :=
    hacts.filter fun a b ha ↦ congrArg (!·) (hpresent a b ha).isEmpty_eq
  have hlabels := h.openingLabels_same hacts
  unfold dispatch
  generalize (LabelSet.unions (as.map fun a ↦ T.present a.view ms)).toList = names at hnames ⊢
  generalize (LabelSet.unions (bs.map fun b ↦ U.present b.view ns)).toList = others at hnames ⊢
  rcases names with _ | ⟨name, _ | ⟨second, rest⟩⟩
  · obtain rfl := List.nil_perm.1 hnames
    refine .singleton hmembers (Comparison.leftOver hmembers ?_)
    rw [hlabels.isEmpty_eq]
    split
    · exact .refl _
    · exact hlabels
  · obtain rfl := List.singleton_perm.1 hnames
    have hrel := C.lookup_rel _ _ hmembers name
    simp only
    generalize ms.lookup name = v at hrel ⊢
    generalize ns.lookup name = w at hrel ⊢
    cases hrel with
    | none => exact .keep hmembers
    | some hvw => exact h.dispatchByValue_outcomes hsuits hcandidates hmembers hvw
  · rcases others with _ | ⟨name', _ | ⟨second', rest'⟩⟩
    · exact absurd hnames.length_eq (by simp)
    · exact absurd hnames.length_eq (by simp)
    · refine .singleton hmembers ⟨rfl, .ambiguity (h.openingLabels_same hcandidates), ?_⟩
      exact .inr ⟨C.loose_of_isAmbiguity _ rfl, _, _, hnames, rfl, rfl⟩

end Reordered

/-! ### Taking members -/

section Clauses

variable {deeper deeper' : PartCheck ρ} {ofTarget ofTarget' : ρ → Members → Outcome} {path : Path}

mutual

theorem takeClause_outcomes (h : T.Reordered U) (hsuits : T.Suits C)
    (hdeeper : ∀ r path v w, C.value v w → C.failures (deeper r path v) (deeper' r path w))
    (htarget : ∀ t ms ns, C.members ms ns → C.Outcomes (ofTarget t ms) (ofTarget' t ns)) :
    {clause other : Clause ρ} → clause.Reordered other → C.Spreads ∨ clause.hasMany = false →
    ∀ ms ns, C.members ms ns → C.Outcomes (T.takeClause deeper ofTarget path clause ms)
      (U.takeClause deeper' ofTarget' path other ns)
  | .named name target, _, rfl, _, ms, ns, hmembers => by
    have hrel := C.lookup_rel ms ns hmembers name
    rw [takeClause, takeClause]
    generalize ms.lookup name = v at hrel ⊢
    generalize ns.lookup name = w at hrel ⊢
    cases hrel with
    | none => exact .singleton hmembers (Comparison.leftOver hmembers (.refl (.singleton _)))
    | some hvw => exact ⟨C.without _ _ hmembers name, hdeeper target _ _ _ hvw⟩
  | .optional group, _, ⟨other, rfl, hgroup⟩, hmany, ms, ns, hmembers => by
    rw [takeClause, takeClause, (h.present_same (.group hgroup) hmembers).isEmpty_eq]
    split
    · exact .keep hmembers
    · exact takeGroup_outcomes h hsuits hdeeper htarget hgroup hmany ms ns hmembers
  | .many target, _, rfl, hmany, ms, ns, hmembers => by
    have hspreads : C.Spreads := hmany.resolve_right Bool.noConfusion
    exact ⟨C.members_nil, hspreads ms ns _ _ hmembers fun name _ _ hvw ↦
      hdeeper target (path.member name) _ _ hvw⟩
  | .flatten t, _, rfl, _, ms, ns, hmembers => htarget t ms ns hmembers
  | .oneOf groups, _, ⟨inOrder, others, rfl, hgroups, hperm⟩, hmany, ms, ns, hmembers => by
    have hacts : Matched (T.ActsLike U C) (T.takeEither deeper ofTarget path groups)
        (U.takeEither deeper' ofTarget' path others) := by
      refine .trans_perm
        (.of_forall₂ (takeEither_actsLike h hsuits hdeeper htarget hgroups hmany)) ?_
      rw [takeEither_eq_map, takeEither_eq_map]
      exact hperm.map _
    exact h.dispatch_outcomes hsuits hacts hmembers

/-- Members that are compared are taken in the same way by clauses and their reordering, if the
parts of values and flattened checks are treated in the same way. -/
theorem takeGroup_outcomes (h : T.Reordered U) (hsuits : T.Suits C)
    (hdeeper : ∀ r path v w, C.value v w → C.failures (deeper r path v) (deeper' r path w))
    (htarget : ∀ t ms ns, C.members ms ns → C.Outcomes (ofTarget t ms) (ofTarget' t ns)) :
    {group other : List (Clause ρ)} → GroupReordered group other →
    C.Spreads ∨ groupHasMany group = false → ∀ ms ns, C.members ms ns →
    C.Outcomes (T.takeGroup deeper ofTarget path group ms)
      (U.takeGroup deeper' ofTarget' path other ns)
  | [], _, rfl, _, _, _, hmembers => .keep hmembers
  | clause :: group, _, ⟨_, _, rfl, hclause, hgroup⟩, hmany, ms, ns, hmembers => by
    rw [groupHasMany, Bool.or_eq_false_iff] at hmany
    exact (takeClause_outcomes h hsuits hdeeper htarget hclause (hmany.imp_right And.left) ms ns
      hmembers).andThen
        (takeGroup_outcomes h hsuits hdeeper htarget hgroup (hmany.imp_right And.right))

theorem takeEither_actsLike (h : T.Reordered U) (hsuits : T.Suits C)
    (hdeeper : ∀ r path v w, C.value v w → C.failures (deeper r path v) (deeper' r path w))
    (htarget : ∀ t ms ns, C.members ms ns → C.Outcomes (ofTarget t ms) (ofTarget' t ns)) :
    {groups others : List (List (Clause ρ))} → GroupsReordered groups others →
    C.Spreads ∨ groupsHaveMany groups = false →
    List.Forall₂ (T.ActsLike U C) (T.takeEither deeper ofTarget path groups)
      (U.takeEither deeper' ofTarget' path others)
  | [], _, rfl, _ => .nil
  | group :: groups, _, ⟨_, _, rfl, hgroup, hgroups⟩, hmany => by
    rw [groupsHaveMany, Bool.or_eq_false_iff] at hmany
    exact .cons ⟨.group hgroup, takeGroup_outcomes h hsuits hdeeper htarget hgroup
        (hmany.imp_right And.left)⟩
      (takeEither_actsLike h hsuits hdeeper htarget hgroups (hmany.imp_right And.right))

end

end Clauses

namespace Reordered

variable (h : T.Reordered U) (hsuits : T.Suits C) {deeper deeper' : PartCheck ρ}
  (hdeeper : ∀ r path v w, C.value v w → C.failures (deeper r path v) (deeper' r path w))

include h hsuits hdeeper

theorem takeTargetWithin_outcomes (path : Path) (hops : Nat) (r : ρ) (ms ns : Members)
    (hmembers : C.members ms ns) : C.Outcomes (T.takeTargetWithin deeper path hops r ms)
      (U.takeTargetWithin deeper' path hops r ns) := by
  induction hops generalizing r ms ns with
  | zero => exact .keep hmembers
  | succ hops ih =>
    rw [takeTargetWithin, takeTargetWithin]
    have hr := h.check r
    cases hcheck : T.check r with
    | object clauses =>
      obtain ⟨others, hother, hclauses⟩ := h.check_object hcheck
      rw [hother]
      exact takeGroup_outcomes h hsuits hdeeper ih hclauses
        (hsuits.many.imp_right fun hmany ↦ hmany r clauses hcheck) ms ns hmembers
    | oneOf alternatives =>
      obtain ⟨others, hother, hperm⟩ := h.check_oneOf hcheck
      rw [hother]
      refine h.dispatch_outcomes hsuits ?_ hmembers
      exact (Matched.of_perm (fun _ _ ↦ rfl) hperm).map fun a _ ha ↦ ha ▸ ⟨.ref a, ih a⟩
    | kind | literal | regex | arrayOf | anything =>
      rw [hcheck] at hr
      rw [hr]
      exact .keep hmembers

theorem takeView_outcomes {path : Path} {view other : View ρ} (hview : view.Reordered other)
    (hmany : ∀ clauses, view = .group clauses → C.Spreads ∨ groupHasMany clauses = false)
    {ms ns : Members} (hmembers : C.members ms ns) :
    C.Outcomes (T.takeView deeper path view ms) (U.takeView deeper' path other ns) := by
  have htarget := h.takeTargetWithin_outcomes hsuits hdeeper path T.hops
  cases hview with
  | group hclauses =>
    rw [takeView, takeView, h.hops_eq]
    exact takeGroup_outcomes h hsuits hdeeper htarget hclauses (hmany _ rfl) ms ns hmembers
  | ref r =>
    rw [takeView, takeView, h.hops_eq]
    exact htarget r ms ns hmembers

/-! ### Verdicts -/

section Here

variable {r : ρ} {path : Path} {v w : Json} (hvw : C.value v w) {hops : Nat}

include hvw

omit hsuits hdeeper in
theorem kind_compared {type : TypeName} (hcheck : T.check r = .kind type) :
    C.failures (T.failuresHere deeper (hops + 1) r path v)
      (U.failuresHere deeper' (hops + 1) r path w) := by
  have hother : U.check r = .kind type := by
    simpa only [hcheck, Check.Reordered] using h.check r
  rw [failuresHere, failuresHere, hcheck, hother]
  simp only [(C.sides v w hvw).kind_eq]
  split
  · exact C.failures_nil
  · exact C.failures_singleton _ _ (.unexpected _)

omit hdeeper in
theorem literal_compared {literal : Json} (hcheck : T.check r = .literal literal) :
    C.failures (T.failuresHere deeper (hops + 1) r path v)
      (U.failuresHere deeper' (hops + 1) r path w) := by
  have hsides := C.sides v w hvw
  have hother : U.check r = .literal literal := by
    simpa only [hcheck, Check.Reordered] using h.check r
  rw [failuresHere, failuresHere, hcheck, hother]
  rcases hsuits.literal r literal hcheck with hscalar | heq
  · simp only [hsides.equal_eq hscalar, hsides.literalFailure_eq hscalar]
    split
    · exact C.failures_nil
    · exact C.failures_singleton _ _ (literalFailure_alike w)
  · obtain rfl := heq v w hvw
    simp only
    split
    · exact C.failures_nil
    · exact C.failures_singleton _ _ (literalFailure_alike v)

omit hsuits hdeeper in
theorem regex_compared {matcher : Matcher} {label : String}
    (hcheck : T.check r = .regex matcher label) :
    C.failures (T.failuresHere deeper (hops + 1) r path v)
      (U.failuresHere deeper' (hops + 1) r path w) := by
  have hother : U.check r = .regex matcher label := by
    simpa only [hcheck, Check.Reordered] using h.check r
  rw [failuresHere, failuresHere, hcheck, hother]
  cases C.sides v w hvw with
  | string s =>
    simp only
    split
    · exact C.failures_nil
    · exact C.failures_singleton _ _ (.unexpected _)
  | null | bool | integer | float | array | object =>
    exact C.failures_singleton _ _ (.unexpected _)

omit hsuits in
theorem arrayOf_compared {element : ρ} (hcheck : T.check r = .arrayOf element) :
    C.failures (T.failuresHere deeper (hops + 1) r path v)
      (U.failuresHere deeper' (hops + 1) r path w) := by
  have hother : U.check r = .arrayOf element := by
    simpa only [hcheck, Check.Reordered] using h.check r
  rw [failuresHere, failuresHere, hcheck, hother]
  cases C.sides v w hvw with
  | array hitems => exact Comparison.failures_items hitems fun i ↦ hdeeper element (path.item i)
  | null | bool | integer | float | string | object =>
    exact C.failures_singleton _ _ (.unexpected _)

theorem object_compared {clauses : List (Clause ρ)} (hcheck : T.check r = .object clauses) :
    C.failures (T.failuresHere deeper (hops + 1) r path v)
      (U.failuresHere deeper' (hops + 1) r path w) := by
  obtain ⟨others, hother, hclauses⟩ := h.check_object hcheck
  rw [failuresHere, failuresHere, hcheck, hother]
  cases C.sides v w hvw with
  | object hmembers =>
    refine (h.takeView_outcomes hsuits hdeeper (.group hclauses) ?_ hmembers).closeObject
    rintro _ ⟨⟩
    exact hsuits.many.imp_right fun hmany ↦ hmany r clauses hcheck
  | null | bool | integer | float | string | array =>
    exact C.failures_singleton _ _ (.unexpected _)

/-- The branches that two values fit are the same but for an order. A single one decides; no branch,
or more than one, makes one failure, whose labels come in that order. -/
theorem oneOf_compared {alternatives : List ρ} (hcheck : T.check r = .oneOf alternatives)
    (hbelow : ∀ only, C.failures (T.failuresHere deeper hops only path v)
      (U.failuresHere deeper' hops only path w)) :
    C.failures (T.failuresHere deeper (hops + 1) r path v)
      (U.failuresHere deeper' (hops + 1) r path w) := by
  have hsides := C.sides v w hvw
  obtain ⟨others, hother, hperm⟩ := h.check_oneOf hcheck
  rw [failuresHere, failuresHere, hcheck, hother]
  have hbranches := h.branches_matched hsuits hvw hperm
  simp only [hsides.shallowText_eq]
  generalize T.branches alternatives v = branches at hbranches ⊢
  generalize U.branches others w = branches' at hbranches ⊢
  rcases branches with _ | ⟨first, _ | ⟨second, rest⟩⟩
  · obtain rfl := hbranches.eq_nil
    exact C.failures_singleton _ _ (.unexpectedOf (h.labelsOf_same hperm))
  · obtain ⟨other, rfl, hfirst⟩ := hbranches.exists_singleton
    cases hfirst with
    | single only => exact hbelow only
    | objects hobjects =>
      cases hsides with
      | object hmembers =>
        refine (h.dispatch_outcomes hsuits ?_ hmembers).closeObject
        refine (Matched.of_perm (fun _ _ ↦ rfl) hobjects).map ?_
        rintro o _ rfl
        refine ⟨.ref o, fun _ _ ↦ h.takeView_outcomes hsuits hdeeper (.ref o) ?_⟩
        rintro _ ⟨⟩
      | null | bool | integer | float | string | array => exact C.failures_nil
  · have hlabels := LabelSet.Same.unions_map hbranches fun _ _ ↦ h.branchLabels_same
    rcases branches' with _ | ⟨first', _ | ⟨second', rest'⟩⟩
    · exact absurd hbranches.length_eq (by simp)
    · exact absurd hbranches.length_eq (by simp)
    · have hgoal : C.failures [.ambiguous path w.shallowText _]
          [.ambiguous path w.shallowText _] := C.failures_singleton _ _ (.ambiguous hlabels)
      cases first <;> cases first' <;> exact hgoal

theorem failuresHere_compared (hops : Nat) (r : ρ) :
    C.failures (T.failuresHere deeper hops r path v) (U.failuresHere deeper' hops r path w) := by
  induction hops generalizing r with
  | zero => exact C.failures_nil
  | succ hops ih =>
    cases hcheck : T.check r with
    | kind type => exact h.kind_compared hvw hcheck
    | literal literal => exact h.literal_compared hsuits hvw hcheck
    | regex matcher label => exact h.regex_compared hvw hcheck
    | arrayOf element => exact h.arrayOf_compared hdeeper hvw hcheck
    | object clauses => exact h.object_compared hsuits hdeeper hvw hcheck
    | oneOf alternatives => exact h.oneOf_compared hsuits hdeeper hvw hcheck ih
    | anything =>
      have hother : U.check r = .anything := by
        simpa only [hcheck, Check.Reordered] using h.check r
      rw [failuresHere, failuresHere, hcheck, hother]
      exact C.failures_nil

end Here

omit hdeeper in
theorem failuresWithin_compared (levels : Nat) (r : ρ) (path : Path) (v w : Json)
    (hvw : C.value v w) :
    C.failures (T.failuresWithin levels r path v) (U.failuresWithin levels r path w) := by
  induction levels generalizing r path v w with
  | zero => exact C.failures_nil
  | succ levels ih =>
    rw [failuresWithin, failuresWithin, h.hops_eq]
    exact h.failuresHere_compared hsuits ih hvw T.hops r

omit hdeeper in
/-- Through tables that are reorderings of each other, values that are compared have failures that
are. -/
theorem failures_compared {r : ρ} {path : Path} {v w : Json} (hvw : C.value v w) :
    C.failures (T.failures r path v) (U.failures r path w) := by
  rw [failures, failures, C.depth_eq v w hvw]
  exact h.failuresWithin_compared hsuits _ r path v w hvw

end Reordered

end Table

end JsonPattern
