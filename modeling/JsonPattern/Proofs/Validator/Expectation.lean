import JsonPattern.Proofs.Validator.Contention

/-!
# What failures name

A failure tells what was expected, or which alternatives overlap, by the labels of checks or of
names. These are collected in three ways that do not look at each other: from the descriptions of
checks, from the names that may open an alternative, and from the checks that may apply to the
member of such a name. Where no disjunction is empty, every check has a label, and every name that
may open an alternative comes with a check for its value. So a failure always names something: a
set of labels that is reported is never empty, and it is never a set where one label will do.
-/

namespace JsonPattern

/-- What is expected is a single label, or a set of two at least; what overlaps is no empty set. -/
def Cause.NamesSomething : Cause → Prop
  | .unexpected (.one _) => True
  | .unexpected (.oneOf labels) => 2 ≤ labels.toList.length
  | .ambiguity overlapping => overlapping.toList ≠ []

theorem Cause.namesSomething_ofLabels {labels : LabelSet} (h : ∃ label, label ∈ labels) :
    (Cause.unexpected (.ofLabels labels)).NamesSomething := by
  obtain ⟨label, hlabel⟩ := h
  unfold Expected.ofLabels
  split
  · trivial
  · next hsingle =>
    rw [← LabelSet.mem_toList] at hlabel
    rw [NamesSomething]
    rcases hlist : labels.toList with _ | ⟨first, _ | ⟨second, rest⟩⟩
    · exact absurd (hlist ▸ hlabel) List.not_mem_nil
    · exact absurd hlist (hsingle first)
    · simp

theorem Cause.namesSomething_ambiguity {overlapping : LabelSet}
    (h : ∃ label, label ∈ overlapping) : (Cause.ambiguity overlapping).NamesSomething := by
  obtain ⟨label, hlabel⟩ := h
  exact List.ne_nil_of_mem (LabelSet.mem_toList.2 hlabel)

variable {ρ : Type}

/-! ### Names and checks that open a list of clauses -/

section FirstChecks

variable {ofNames : ρ → LabelSet} {ofTarget : ρ → List ρ} {name : String}

mutual

theorem Clause.firstChecks_ne_nil (htarget : ∀ t, name ∈ ofNames t → ofTarget t ≠ []) :
    (clause : Clause ρ) → name ∈ clause.firstNames ofNames →
    clause.firstChecks ofTarget name ≠ []
  | .named own value, h => by
    obtain rfl : name = own := LabelSet.mem_singleton.1 h
    simp [Clause.firstChecks]
  | .optional group, h => groupFirstChecks_ne_nil htarget group h
  | .many _, h => absurd h LabelSet.not_mem_empty
  | .flatten t, h => htarget t h
  | .oneOf groups, h => groupsFirstChecks_ne_nil htarget groups h

/-- A name that may open a list of clauses comes with a check for its value. -/
theorem groupFirstChecks_ne_nil (htarget : ∀ t, name ∈ ofNames t → ofTarget t ≠ []) :
    (group : List (Clause ρ)) → name ∈ groupFirstNames ofNames group →
    groupFirstChecks ofTarget name group ≠ []
  | [], h => absurd h LabelSet.not_mem_empty
  | clause :: group, h => by
    have hclause := clause.firstChecks_ne_nil htarget
    rw [groupFirstNames] at h
    rw [groupFirstChecks]
    split at h
    · next hoptional =>
      rw [if_pos hoptional]
      rcases LabelSet.mem_union.1 h with h | h
      · exact List.append_ne_nil_of_left_ne_nil (hclause h) _
      · exact List.append_ne_nil_of_right_ne_nil _ (groupFirstChecks_ne_nil htarget group h)
    · next hoptional =>
      rw [if_neg hoptional]
      exact hclause h

theorem groupsFirstChecks_ne_nil (htarget : ∀ t, name ∈ ofNames t → ofTarget t ≠ []) :
    (groups : List (List (Clause ρ))) → name ∈ groupsFirstNames ofNames groups →
    groupsFirstChecks ofTarget name groups ≠ []
  | [], h => absurd h LabelSet.not_mem_empty
  | group :: groups, h => by
    rcases LabelSet.mem_union.1 h with h | h
    · exact List.append_ne_nil_of_left_ne_nil (groupFirstChecks_ne_nil htarget group h) _
    · exact List.append_ne_nil_of_right_ne_nil _ (groupsFirstChecks_ne_nil htarget groups h)

end

end FirstChecks

namespace Table

variable {T : Table ρ}

theorem firstChecksWithin_ne_nil {name : String} {hops : Nat} {r : ρ}
    (h : name ∈ T.firstNamesWithin hops r) : T.firstChecksWithin name hops r ≠ [] := by
  induction hops generalizing r with
  | zero => exact absurd h LabelSet.not_mem_empty
  | succ hops ih =>
    rw [firstNamesWithin] at h
    rw [firstChecksWithin]
    cases hcheck : T.check r with
    | object clauses =>
      simp only [hcheck] at h
      exact groupFirstChecks_ne_nil (fun _ ↦ ih) clauses h
    | oneOf alternatives =>
      simp only [hcheck, LabelSet.mem_unions, List.mem_map, exists_exists_and_eq_and] at h
      obtain ⟨a, ha, h⟩ := h
      exact fun hnil ↦ ih h (List.flatMap_eq_nil_iff.1 hnil a ha)
    | kind | literal | regex | arrayOf | anything =>
      simp only [hcheck] at h
      exact absurd h LabelSet.not_mem_empty

/-- A name that may open a view comes with a check for its value. -/
theorem firstChecks_ne_nil {name : String} {view : View ρ} (h : name ∈ T.firstNames view) :
    T.firstChecks name view ≠ [] := by
  cases view with
  | group clauses => exact groupFirstChecks_ne_nil (fun _ ↦ firstChecksWithin_ne_nil) clauses h
  | ref target => exact firstChecksWithin_ne_nil h

/-! ### Labels -/

theorem mem_viewOpenings {views : List (View ρ)} {view : View ρ} {name : String}
    (hview : view ∈ views) (hname : name ∈ T.firstNames view) :
    nameLabel name ∈ T.viewOpenings views := by
  have hopenings : T.viewOpenings views =
      .unions (views.map fun view ↦ .ofList ((T.firstNames view).toList.map nameLabel)) := by
    rw [viewOpenings, openingLabels, alternativesOf, List.map_map]
    rfl
  rw [hopenings]
  exact LabelSet.mem_unions.2 ⟨_, List.mem_map_of_mem hview,
    LabelSet.mem_ofList.2 (List.mem_map_of_mem hname)⟩

/-- Where no view can be opened, the end of the object is expected, or the names that are not
there. -/
theorem exists_mem_expectedOpenings (views : List (View ρ)) :
    ∃ label, label ∈ T.expectedOpenings views := by
  rw [expectedOpenings]
  split
  · exact ⟨endOfMembers, LabelSet.mem_singleton.2 rfl⟩
  · next hopenings => exact LabelSet.isEmpty_eq_false_iff.1 (Bool.eq_false_iff.2 hopenings)

section Labels

variable [DecidableEq ρ] {rank : ρ → Nat} (h : T.Ranked Set.univ rank)
  (hchoice : ∀ r, T.check r ≠ .oneOf [])

include h hchoice

/-- Where no disjunction is empty, every check has a label. -/
theorem Ranked.exists_mem_labels (r : ρ) : ∃ label, label ∈ T.labels r := by
  induction hrank : rank r using Nat.strong_induction_on generalizing r with
  | h n ih =>
    subst hrank
    rw [h.labels_eq (Set.mem_univ r)]
    cases hcheck : T.check r with
    | oneOf alternatives =>
      have hne : alternatives ≠ [] := fun hnil ↦ hchoice r (hnil ▸ hcheck)
      obtain ⟨a, ha⟩ := List.exists_mem_of_ne_nil alternatives hne
      obtain ⟨label, hlabel⟩ := ih _ (h.mem_of_oneOf (Set.mem_univ r) hcheck ha).2 a rfl
      exact ⟨label, LabelSet.mem_unions.2 ⟨_, List.mem_map_of_mem ha, hlabel⟩⟩
    | kind | literal | regex | arrayOf | object | anything =>
      exact ⟨_, LabelSet.mem_singleton.2 rfl⟩

theorem Ranked.exists_mem_labelsOf {rs : List ρ} (hne : rs ≠ []) :
    ∃ label, label ∈ T.labelsOf rs := by
  obtain ⟨r, hr⟩ := List.exists_mem_of_ne_nil rs hne
  obtain ⟨label, hlabel⟩ := h.exists_mem_labels hchoice r
  exact ⟨label, LabelSet.mem_unions.2 ⟨_, List.mem_map_of_mem hr, hlabel⟩⟩

/-- The branches that a value fits have labels. -/
theorem Ranked.exists_mem_branchLabels {alternatives : List ρ} {value : Json} {branch : Branch ρ}
    (hbranch : branch ∈ T.branches alternatives value) :
    ∃ label, label ∈ T.branchLabels branch := by
  cases branch with
  | single r => exact h.exists_mem_labels hchoice r
  | objects objects =>
    rw [branches, branchesBy] at hbranch
    split at hbranch
    · exact h.exists_mem_labelsOf hchoice (refs_ne_nil_of_mem_groupBranches hbranch)
    · obtain ⟨_, _, he⟩ := List.mem_map.1 hbranch
      cases he

/-- The values under a name that may open one of several views have a label. -/
theorem Ranked.exists_mem_viewLabels {views : List (View ρ)} {view : View ρ} {name : String}
    (hview : view ∈ views) (hname : name ∈ T.firstNames view) :
    ∃ label, label ∈ T.viewLabels name views := by
  have hlabels : T.viewLabels name views =
      .unions (views.map fun view ↦ T.labelsOf (T.firstChecks name view)) := by
    rw [viewLabels, valueLabels, alternativesOf, List.map_map]
    rfl
  obtain ⟨label, hlabel⟩ := h.exists_mem_labelsOf hchoice (firstChecks_ne_nil hname)
  rw [hlabels]
  exact ⟨label, LabelSet.mem_unions.2 ⟨_, List.mem_map_of_mem hview, hlabel⟩⟩

/-! ### Failures -/

/-- A failure that a call raises names something. -/
theorem Ranked.namesSomething_of_raises {call : Call ρ} {failure : Failure}
    (hraises : T.Raises call failure) : failure.cause.NamesSomething := by
  cases hraises with
  | kind | regex | notString | notArray | notObject | leftOver | leftOverOfObjects | missing =>
    trivial
  | literal =>
    rw [literalFailure]
    split <;> trivial
  | @noBranch r alternatives value path hcheck _ =>
    have hne : alternatives ≠ [] := fun hnil ↦ hchoice r (hnil ▸ hcheck)
    exact Cause.namesSomething_ofLabels (h.exists_mem_labelsOf hchoice hne)
  | @branches r alternatives value path _ hbranches =>
    obtain ⟨branch, hbranch⟩ := List.exists_mem_of_length_pos
      (l := T.branches alternatives value) (by omega)
    obtain ⟨label, hlabel⟩ := h.exists_mem_branchLabels hchoice hbranch
    exact Cause.namesSomething_ambiguity
      ⟨label, LabelSet.mem_unions.2 ⟨_, List.mem_map_of_mem hbranch, hlabel⟩⟩
  | closed path _ => exact Cause.namesSomething_ofLabels (exists_mem_expectedOpenings _)
  | @torn views members first second rest path hnames =>
    have hfirst : first ∈ T.presentNames views members :=
      LabelSet.mem_toList.1 (hnames ▸ List.mem_cons_self)
    obtain ⟨view, hview, hfirst⟩ := mem_presentNames.1 hfirst
    exact Cause.namesSomething_ambiguity
      ⟨_, mem_viewOpenings (mem_candidates hview hfirst) (mem_present.1 hfirst).1⟩
  | unmatched path hdecides _ =>
    obtain ⟨view, hview, hname⟩ := hdecides.mem_present
    exact Cause.namesSomething_ofLabels
      (h.exists_mem_viewLabels hchoice (mem_candidates hview hname) (mem_present.1 hname).1)
  | @claimed views members name value path _ hseveral =>
    obtain ⟨view, hview⟩ := List.exists_mem_of_length_pos
      (l := views.filter (T.opens name value)) (by omega)
    have hname := mem_firstNames_of_opens (List.mem_filter.1 hview).2
    exact Cause.namesSomething_ambiguity (h.exists_mem_viewLabels hchoice hview hname)

/-- Every failure that a call finds names something. -/
theorem Ranked.namesSomething_of_mem_failuresOf {bound : Nat}
    (hsize : ∀ r, (T.check r).size + 2 ≤ bound) {call : Call ρ} {failure : Failure}
    (hfailure : failure ∈ T.failuresOf call) : failure.cause.NamesSomething := by
  obtain ⟨call', -, hraises⟩ := (h.mem_failuresOf_iff_raised hsize).1 hfailure
  exact h.namesSomething_of_raises hchoice hraises

end Labels

end Table

end JsonPattern
