import JsonPattern.Proofs.Validator.Disjunction

/-!
# Unfolding nested disjunctions

An alternative that is a disjunction itself can be replaced, in place, by its own alternatives.
Against an object that changes nothing, since the leaves below the alternatives are the same in the
same order. Against any other value an inner disjunction tells what it fits by counting its own
alternatives, so it can hide an overlap; where the unfolded list has none there is no difference
either.
-/

namespace JsonPattern

/-- An element of a list is replaced, in place, by a list that it can be opened into. -/
inductive Unfolds {α : Type} (opensInto : α → List α → Prop) : List α → List α → Prop
  | intro (before after : List α) {a : α} {inner : List α} (h : opensInto a inner) :
      Unfolds opensInto (before ++ a :: after) (before ++ inner ++ after)

theorem Unfolds.map {α β : Type} {opensInto : α → List α → Prop} {opensInto' : β → List β → Prop}
    {f : α → β} {as bs : List α}
    (hf : ∀ a ∈ as, ∀ inner, opensInto a inner → opensInto' (f a) (inner.map f))
    (h : Unfolds opensInto as bs) : Unfolds opensInto' (as.map f) (bs.map f) := by
  cases h with
  | intro before after h =>
    simp only [List.map_append, List.map_cons]
    exact .intro _ _ (hf _ (by simp) _ h)

namespace Table

variable {ρ : Type} {T : Table ρ} {nodes : Set ρ} {rank : ρ → Nat}

/-- An alternative that is a disjunction is replaced by its own alternatives. -/
def UnfoldsTo (T : Table ρ) : List ρ → List ρ → Prop :=
  Unfolds fun a inner ↦ T.check a = .oneOf inner

theorem Ranked.mem_of_unfoldsTo (h : T.Ranked nodes rank) {as bs : List ρ}
    (has : ∀ a ∈ as, a ∈ nodes) (hunfolds : T.UnfoldsTo as bs) : ∀ b ∈ bs, b ∈ nodes := by
  cases hunfolds with
  | intro before after hcheck =>
    intro b hb
    rcases List.mem_append.1 hb with hb | hb
    · rcases List.mem_append.1 hb with hb | hb
      · exact has b (List.mem_append_left _ hb)
      · exact (h.mem_of_oneOf (has _ (by simp)) hcheck hb).1
    · exact has b (List.mem_append_right _ (List.mem_cons_of_mem _ hb))

/-! ### Leaves -/

theorem Ranked.leaves_eq_of_unfoldsTo (h : T.Ranked nodes rank) {as bs : List ρ}
    (has : ∀ a ∈ as, a ∈ nodes) (hunfolds : T.UnfoldsTo as bs) : T.leaves as = T.leaves bs := by
  cases hunfolds with
  | @intro before after a inner hcheck =>
    have ha : T.leavesWithin T.hops a = inner.flatMap (T.leavesWithin T.hops) :=
      h.leavesWithin_hops_eq (has a (by simp)) hcheck
    simp only [leaves, List.flatMap_append, List.flatMap_cons, ha, List.append_assoc]

variable [DecidableEq ρ] {as bs : List ρ} {path : Path} {value : Json}

/-! ### One disjunction unfolded -/

theorem Ranked.labelsOf_eq_of_unfoldsTo (h : T.Ranked nodes rank) (has : ∀ a ∈ as, a ∈ nodes)
    (hunfolds : T.UnfoldsTo as bs) : T.labelsOf as = T.labelsOf bs := by
  cases hunfolds with
  | @intro before after a inner hcheck =>
    have ha : T.labels a = T.labelsOf inner := by
      rw [h.labels_eq (has a (by simp)), hcheck]
    simp only [labelsOf, List.map_append, List.map_cons, LabelSet.unions_append,
      LabelSet.unions_cons] at ha ⊢
    rw [ha, LabelSet.union_assoc]

/-- The failures of the alternatives that a value fits, each seen from any path. -/
def fitting (T : Table ρ) (value : Json) (as : List ρ) : List (Path → List Failure) :=
  (as.filter fun a ↦ T.fits a value).map fun a path ↦ T.failures a path value

theorem fitting_append (as bs : List ρ) :
    T.fitting value (as ++ bs) = T.fitting value as ++ T.fitting value bs := by
  rw [fitting, List.filter_append, List.map_append]
  rfl

theorem branches_of_not_isObject (hvalue : value.isObject = false) (as : List ρ) :
    T.branches as value = (as.filter fun a ↦ T.fits a value).map .single := by
  rw [branches, branchesBy, hvalue, if_neg Bool.false_ne_true]

theorem length_branches (hvalue : value.isObject = false) (as : List ρ) :
    (T.branches as value).length = (T.fitting value as).length := by
  rw [branches_of_not_isObject hvalue, fitting, List.length_map, List.length_map]

/-- A disjunction fits where exactly one of its alternatives does. -/
theorem Ranked.fits_eq_of_not_isObject (h : T.Ranked nodes rank) {r : ρ} (hr : r ∈ nodes)
    (hcheck : T.check r = .oneOf as) (hvalue : value.isObject = false) :
    T.fits r value = ((T.fitting value as).length == 1) := by
  rw [h.fits_eq hr, hcheck]
  exact congrArg (· == 1) (length_branches hvalue as)

/-- A disjunction of which one alternative alone fits has its failures. -/
theorem Ranked.failures_eq_of_fitting (h : T.Ranked nodes rank) {r : ρ} (hr : r ∈ nodes)
    (hcheck : T.check r = .oneOf as) (hvalue : value.isObject = false)
    {failures : Path → List Failure} (hfitting : T.fitting value as = [failures]) :
    T.failures r path value = failures path := by
  obtain ⟨a, ha, rfl⟩ := List.map_eq_singleton_iff.1 hfitting
  have hbranches : T.branches as value = [.single a] := by
    rw [branches_of_not_isObject hvalue, ha, List.map_singleton]
  rw [h.failures_eq hr, hcheck]
  simp only [hbranches]

/-- Where the unfolded list has no overlap, the same failures are at hand. -/
theorem Ranked.fitting_eq_of_unfoldsTo (h : T.Ranked nodes rank) (has : ∀ a ∈ as, a ∈ nodes)
    (hunfolds : T.UnfoldsTo as bs) (hvalue : value.isObject = false)
    (hone : (T.fitting value bs).length ≤ 1) : T.fitting value as = T.fitting value bs := by
  cases hunfolds with
  | @intro before after a inner hcheck =>
    have ha : a ∈ nodes := has a (by simp)
    have hcons : T.fitting value (a :: after) =
        T.fitting value [a] ++ T.fitting value after := fitting_append [a] after
    rw [fitting_append, fitting_append, List.length_append, List.length_append] at hone
    rw [fitting_append, fitting_append, fitting_append, hcons, ← List.append_assoc]
    refine congrArg (T.fitting value before ++ · ++ T.fitting value after) ?_
    have hfits := h.fits_eq_of_not_isObject ha hcheck hvalue
    rcases hinner : T.fitting value inner with _ | ⟨failures, _ | ⟨second, rest⟩⟩
    · rw [hinner] at hfits
      simp [fitting, hfits]
    · rw [hinner] at hfits
      have hfailures : (fun path ↦ T.failures a path value) = failures := by
        funext path
        exact h.failures_eq_of_fitting ha hcheck hvalue hinner
      simp [fitting, hfits, hfailures]
    · rw [hinner] at hone
      simp only [List.length_cons] at hone
      omega

/-! ### Disjunctions unfolded to any depth -/

section Depth

variable {r s : ρ} (h : T.Ranked nodes rank)

include h

omit [DecidableEq ρ] in
/-- What one step of unfolding keeps, any number of steps keeps. -/
theorem Ranked.eq_of_unfoldings {β : Type} {look : List ρ → β}
    (hstep : ∀ as bs, (∀ a ∈ as, a ∈ nodes) → T.UnfoldsTo as bs → look as = look bs)
    (has : ∀ a ∈ as, a ∈ nodes) (hunfolds : Relation.ReflTransGen T.UnfoldsTo as bs) :
    look as = look bs := by
  induction hunfolds using Relation.ReflTransGen.head_induction_on with
  | refl => rfl
  | head hhead _ ih => exact (hstep _ _ has hhead).trans (ih (h.mem_of_unfoldsTo has hhead))

theorem Ranked.fitting_eq_of_unfoldings (has : ∀ a ∈ as, a ∈ nodes)
    (hunfolds : Relation.ReflTransGen T.UnfoldsTo as bs) (hvalue : value.isObject = false)
    (hone : (T.fitting value bs).length ≤ 1) : T.fitting value as = T.fitting value bs := by
  induction hunfolds using Relation.ReflTransGen.head_induction_on with
  | refl => rfl
  | head hhead _ ih =>
    have ih := ih (h.mem_of_unfoldsTo has hhead)
    exact (h.fitting_eq_of_unfoldsTo has hhead hvalue (ih ▸ hone)).trans ih

variable (hr : r ∈ nodes) (hs : s ∈ nodes) (hcheck : T.check r = .oneOf as)
  (hcheck' : T.check s = .oneOf bs) (hunfolds : Relation.ReflTransGen T.UnfoldsTo as bs)

include hr hs hcheck hcheck' hunfolds

theorem Ranked.labels_eq_of_unfoldings : T.labels r = T.labels s := by
  rw [h.labels_eq hr, h.labels_eq hs, hcheck, hcheck']
  exact h.eq_of_unfoldings (fun _ _ ↦ h.labelsOf_eq_of_unfoldsTo)
    (fun a ha ↦ (h.mem_of_oneOf hr hcheck ha).1) hunfolds

/-- Disjunctions with the same branches have the same verdicts. -/
theorem Ranked.verdict_eq_of_branches_eq (hbranches : T.branches as value = T.branches bs value) :
    T.failures r path value = T.failures s path value ∧ T.fits r value = T.fits s value := by
  have hlabels : T.labelsOf as = T.labelsOf bs :=
    h.eq_of_unfoldings (fun _ _ ↦ h.labelsOf_eq_of_unfoldsTo)
      (fun a ha ↦ (h.mem_of_oneOf hr hcheck ha).1) hunfolds
  constructor
  · rw [h.failures_eq hr, h.failures_eq hs, hcheck, hcheck']
    simp only [hbranches, hlabels]
  · rw [h.fits_eq hr, h.fits_eq hs, hcheck, hcheck']
    simp only [hbranches]

/-- Against an object, unfolding changes nothing. -/
theorem Ranked.verdict_eq_of_unfoldings_object (hvalue : value.isObject = true) :
    T.failures r path value = T.failures s path value ∧ T.fits r value = T.fits s value := by
  have has : ∀ a ∈ as, a ∈ nodes := fun a ha ↦ (h.mem_of_oneOf hr hcheck ha).1
  have hleaves : T.leaves as = T.leaves bs :=
    h.eq_of_unfoldings (fun _ _ ↦ h.leaves_eq_of_unfoldsTo) has hunfolds
  refine h.verdict_eq_of_branches_eq hr hs hcheck hcheck' hunfolds ?_
  rw [branches, branches, branchesBy, branchesBy, if_pos hvalue, if_pos hvalue, splice_eq_foldl,
    splice_eq_foldl, hleaves]

/-- Against any other value, unfolding changes nothing where it shows no overlap. -/
theorem Ranked.verdict_eq_of_unfoldings (hvalue : value.isObject = false)
    (hone : bs.countP (fun b ↦ T.fits b value) ≤ 1) :
    T.failures r path value = T.failures s path value ∧ T.fits r value = T.fits s value := by
  have has : ∀ a ∈ as, a ∈ nodes := fun a ha ↦ (h.mem_of_oneOf hr hcheck ha).1
  have hlength : (T.fitting value bs).length ≤ 1 := by
    rwa [fitting, List.length_map, ← List.countP_eq_length_filter]
  have hfitting := h.fitting_eq_of_unfoldings has hunfolds hvalue hlength
  rcases hflat : T.fitting value bs with _ | ⟨failures, _ | ⟨second, rest⟩⟩
  · have hnone {cs : List ρ} (hcs : T.fitting value cs = []) : T.branches cs value = [] := by
      rw [← List.length_eq_zero_iff, length_branches hvalue, hcs, List.length_nil]
    refine h.verdict_eq_of_branches_eq hr hs hcheck hcheck' hunfolds ?_
    rw [hnone (hfitting.trans hflat), hnone hflat]
  · constructor
    · rw [h.failures_eq_of_fitting hr hcheck hvalue (hfitting.trans hflat),
        h.failures_eq_of_fitting hs hcheck' hvalue hflat]
    · rw [h.fits_eq_of_not_isObject hr hcheck hvalue, h.fits_eq_of_not_isObject hs hcheck' hvalue,
        hfitting]
  · rw [hflat] at hlength
    simp only [List.length_cons] at hlength
    omega

/-- Where the two differ, the unfolded disjunction reports an overlap. -/
theorem Ranked.exists_ambiguity_of_unfoldings (hvalue : value.isObject = false)
    (hne : T.failures r path value ≠ T.failures s path value ∨ T.fits r value ≠ T.fits s value) :
    ∃ labels, T.failures s path value = [.ambiguous path value.shallowText labels] := by
  have htwo : 2 ≤ bs.countP fun b ↦ T.fits b value := by
    by_contra hlt
    have heq : T.failures r path value = T.failures s path value ∧
        T.fits r value = T.fits s value :=
      h.verdict_eq_of_unfoldings hr hs hcheck hcheck' hunfolds hvalue (by omega)
    exact hne.elim (absurd heq.1) (absurd heq.2)
  refine ⟨_, h.failures_eq_of_two_le hs hcheck' ?_⟩
  rwa [branches_of_not_isObject hvalue, List.length_map, ← List.countP_eq_length_filter]

end Depth

end Table

end JsonPattern
