import JsonPattern.Proofs.Json.Members
import JsonPattern.Proofs.Validator.Choice
import JsonPattern.Proofs.Validator.Splicing

/-!
# Disjunctions

A value that meets no failure at a disjunction meets none at one of the leaves below it, and where
several of the alternatives would do, the disjunction says so instead of picking one of them. A
value that is no object is claimed by alternatives, each position of the list counting by itself; an
object is claimed by leaves, if each leaf that is one of objects has a first name among the members.
-/

namespace JsonPattern

namespace Table

variable {ρ : Type} [DecidableEq ρ] {T : Table ρ} {nodes : Set ρ} {rank : ρ → Nat} {path : Path}
  {value : Json} {members : Members} {r : ρ} {alternatives : List ρ}

/-! ### Soundness -/

/-- The leaves below what a branch of a disjunction refers to are leaves below the disjunction. -/
theorem Ranked.isLeafBelow_of_mem_branches (h : T.Ranked nodes rank) (hr : r ∈ nodes)
    (hcheck : T.check r = .oneOf alternatives) {branch : Branch ρ}
    (hbranch : branch ∈ T.branches alternatives value) {s leaf : ρ} (hs : s ∈ branch.refs)
    (hleaf : T.IsLeafBelow s leaf) : T.IsLeafBelow r leaf := by
  rw [isLeafBelow_iff_of_oneOf hcheck]
  unfold branches branchesBy at hbranch
  split at hbranch
  · have hs := refs_subset_of_mem_groupBranches hbranch hs
    obtain ⟨a, ha, hbelow⟩ :=
      (h.mem_splice_iff fun a ha ↦ (h.mem_of_oneOf hr hcheck ha).1).1 hs
    exact ⟨a, ha, hbelow.reached.trans hleaf.reached, hleaf.check_ne⟩
  · obtain ⟨a, ha, rfl⟩ := List.mem_map.1 hbranch
    obtain rfl := List.mem_singleton.1 hs
    exact ⟨s, (List.mem_filter.1 ha).1, hleaf⟩

/-- The failures of an object against a check of objects, which is seen as taking its members. -/
theorem Ranked.failures_eq_of_isObject (h : T.Ranked nodes rank) (hr : r ∈ nodes)
    (hobject : T.isObject r = true) : T.failures r path (.object members) =
      closeObject path (T.takeView T.failures path (.ref r) members) := by
  obtain ⟨clauses, hcheck⟩ := exists_clauses_of_isObject hobject
  rw [h.failures_eq hr, h.takeView_ref_eq hr, hcheck]

theorem dispatch_map_ref (objects : List ρ) :
    T.dispatch path (objects.map fun o ↦ ⟨.ref o, T.takeView T.failures path (.ref o)⟩) members =
      T.dispatchViews path (objects.map .ref) members := by
  rw [dispatchViews, alternativesOf, List.map_map]
  rfl

/-- A value without failures has none at a leaf. -/
theorem Ranked.exists_leaf_of_failures_eq_nil (h : T.Ranked nodes rank) (hr : r ∈ nodes)
    (hfailures : T.failures r path value = []) :
    ∃ leaf, T.IsLeafBelow r leaf ∧ T.failures leaf path value = [] := by
  induction hn : rank r using Nat.strong_induction_on generalizing r with
  | h n ih =>
    subst hn
    by_cases hleaf : ∀ alternatives, T.check r ≠ .oneOf alternatives
    · exact ⟨r, ⟨.refl, hleaf⟩, hfailures⟩
    obtain ⟨alternatives, hcheck⟩ := not_forall_not.1 hleaf
    have hbelow {branch : Branch ρ} (hbranch : branch ∈ T.branches alternatives value) {s : ρ}
        (hs : s ∈ branch.refs) (hfailures : T.failures s path value = []) :
        ∃ leaf, T.IsLeafBelow r leaf ∧ T.failures leaf path value = [] := by
      have hmem := h.mem_branches hr hcheck hbranch hs
      obtain ⟨leaf, hleaf, hfailures⟩ := ih (rank s) hmem.2 hmem.1 hfailures rfl
      exact ⟨leaf, h.isLeafBelow_of_mem_branches hr hcheck hbranch hs hleaf, hfailures⟩
    rw [h.failures_eq hr, hcheck] at hfailures
    rcases hbranches : T.branches alternatives value with _ | ⟨first, _ | ⟨second, rest⟩⟩
    · simp [hbranches] at hfailures
    · have hfirst : first ∈ T.branches alternatives value := hbranches ▸ List.mem_cons_self
      cases first with
      | single only =>
        simp only [hbranches] at hfailures
        exact hbelow hfirst List.mem_cons_self hfailures
      | objects objects =>
        cases value with
        | object members =>
          simp only [hbranches] at hfailures
          obtain ⟨a, ha, htake⟩ :=
            exists_take_of_failures_eq_nil (closeObject_eq_nil_iff.1 hfailures).1
          obtain ⟨o, ho, rfl⟩ := List.mem_map.1 ha
          refine hbelow hfirst ho ?_
          rw [h.failures_eq_of_isObject (h.mem_branches hr hcheck hfirst ho).1
            ((isObject_of_mem_branches hfirst).2 o ho)]
          exact (congrArg (closeObject path) htake.symm).trans hfailures
        | null | bool | integer | float | string | array =>
          exact absurd (isObject_of_mem_branches hfirst).1 (by simp [Json.isObject])
    · cases first <;> simp [hbranches] at hfailures

/-! ### Ambiguities -/

/-- A value that fits several branches of a disjunction is ambiguous. -/
theorem Ranked.failures_eq_of_two_le (h : T.Ranked nodes rank) (hr : r ∈ nodes)
    (hcheck : T.check r = .oneOf alternatives)
    (htwo : 2 ≤ (T.branches alternatives value).length) :
    T.failures r path value = [.ambiguous path value.shallowText
      (.unions ((T.branches alternatives value).map T.branchLabels))] := by
  rw [h.failures_eq hr, hcheck]
  rcases hbranches : T.branches alternatives value with _ | ⟨first, _ | ⟨second, rest⟩⟩
  · simp [hbranches] at htwo
  · simp [hbranches] at htwo
  · cases first <;> simp only [hbranches]

/-- Two positions of a list at which a test holds are counted. -/
theorem two_le_countP {α : Type} {p : α → Bool} {as : List α} {i j : Nat} {a b : α} (hne : i ≠ j)
    (hi : as[i]? = some a) (hj : as[j]? = some b) (ha : p a = true) (hb : p b = true) :
    2 ≤ as.countP p := by
  have hpos {as : List α} {i : Nat} {a : α} (hi : as[i]? = some a) (ha : p a = true) :
      1 ≤ as.countP p := List.countP_pos_iff.2 ⟨a, List.mem_of_getElem? hi, ha⟩
  induction as generalizing i j with
  | nil => cases hi
  | cons c as ih =>
    rw [List.countP_cons]
    cases i with
    | zero =>
      obtain rfl : c = a := Option.some.inj hi
      cases j with
      | zero => exact absurd rfl hne
      | succ j =>
        rw [if_pos ha]
        exact Nat.succ_le_succ (hpos (i := j) hj hb)
    | succ i =>
      cases j with
      | zero =>
        obtain rfl : c = b := Option.some.inj hj
        rw [if_pos hb]
        exact Nat.succ_le_succ (hpos (i := i) hi ha)
      | succ j =>
        have hne : i ≠ j := fun he ↦ hne (congrArg (· + 1) he)
        exact (ih hne hi hj).trans (Nat.le_add_right ..)

theorem two_le_countP_of_mem {α : Type} {p : α → Bool} {as : List α} {a b : α} (hne : a ≠ b)
    (ha : a ∈ as) (hb : b ∈ as) (hpa : p a = true) (hpb : p b = true) : 2 ≤ as.countP p := by
  obtain ⟨i, hi⟩ := List.getElem?_of_mem ha
  obtain ⟨j, hj⟩ := List.getElem?_of_mem hb
  refine two_le_countP (fun he ↦ hne ?_) hi hj hpa hpb
  exact Option.some.inj (hi.symm.trans (he ▸ hj))

/-- A value that is no object is ambiguous if alternatives at two positions accept it. -/
theorem Ranked.failures_eq_of_positions (h : T.Ranked nodes rank) (hr : r ∈ nodes)
    (hcheck : T.check r = .oneOf alternatives) (hvalue : value.isObject = false) {i j : Nat}
    {first second : ρ} (hne : i ≠ j) (hi : alternatives[i]? = some first)
    (hj : alternatives[j]? = some second) (hfirst : T.failures first path value = [])
    (hsecond : T.failures second path value = []) :
    ∃ labels, T.failures r path value = [.ambiguous path value.shallowText labels] := by
  have hfits {i : Nat} {a : ρ} (hi : alternatives[i]? = some a)
      (hfailures : T.failures a path value = []) : T.fits a value = true :=
    h.fits_of_failures_eq_nil
      (h.mem_of_oneOf hr hcheck (List.mem_of_getElem? hi)).1 hfailures
  refine ⟨_, h.failures_eq_of_two_le hr hcheck ?_⟩
  rw [branches, branchesBy, hvalue, if_neg Bool.false_ne_true, List.length_map,
    ← List.countP_eq_length_filter]
  exact two_le_countP hne hi hj (hfits hi hfirst) (hfits hj hsecond)

/-- A leaf claims an object: it accepts it, and if it is a check of objects, one of its first names
is present. -/
structure Claims (T : Table ρ) (path : Path) (members : Members) (leaf : ρ) : Prop where
  /-- The object has no failure. -/
  accepts : T.failures leaf path (.object members) = []
  /-- A first name is present. -/
  opened : T.isObject leaf = true → ∃ name ∈ T.firstNames (.ref leaf), name ∈ members.names

theorem Ranked.admits_of_claims (h : T.Ranked nodes rank) {leaf : ρ} (hleaf : leaf ∈ nodes)
    (hobject : T.isObject leaf = true) (hclaims : T.Claims path members leaf) :
    T.admits path members (.ref leaf) = true := by
  obtain ⟨name, hname, hmem⟩ := hclaims.opened hobject
  have hpresent : name ∈ T.present (.ref leaf) members :=
    mem_present.2 ⟨hname, Members.lookup_isSome_iff.2 hmem⟩
  have haccepts := hclaims.accepts
  rw [h.failures_eq_of_isObject hleaf hobject, closeObject_eq_nil_iff] at haccepts
  rw [admits, LabelSet.isEmpty_eq_false_iff.2 ⟨name, hpresent⟩, haccepts.1]
  rfl

/-- An object is ambiguous if two leaves claim it. -/
theorem Ranked.exists_ambiguity_of_claims (h : T.Ranked nodes rank) (hr : r ∈ nodes)
    (hcheck : T.check r = .oneOf alternatives) {first second : ρ} (hne : first ≠ second)
    (hfirst : T.IsLeafBelow r first) (hsecond : T.IsLeafBelow r second)
    (hclaims : T.Claims path members first) (hclaims' : T.Claims path members second) :
    ∃ failure rest, T.failures r path (.object members) = failure :: rest ∧
      failure.isAmbiguity = true := by
  have hmem {leaf : ρ} (hleaf : T.IsLeafBelow r leaf) : leaf ∈ T.splice alternatives :=
    (h.mem_splice_iff fun a ha ↦ (h.mem_of_oneOf hr hcheck ha).1).2
      ((isLeafBelow_iff_of_oneOf hcheck).1 hleaf)
  have hnode {leaf : ρ} (hleaf : T.IsLeafBelow r leaf) : leaf ∈ nodes :=
    (h.mem_splice (fun a ha ↦ (h.mem_of_oneOf hr hcheck ha).1) (hmem hleaf)).1
  have hbranch {leaf : ρ} (hleaf : T.IsLeafBelow r leaf) (hclaims : T.Claims path members leaf) :
      ∃ branch ∈ T.branches alternatives (.object members), leaf ∈ branch.refs :=
    exists_branch_of_mem (hmem hleaf)
      (.inr (h.fits_of_failures_eq_nil (hnode hleaf) hclaims.accepts))
  obtain ⟨branch, hmem₁, hrefs₁⟩ := hbranch hfirst hclaims
  obtain ⟨branch', hmem₂, hrefs₂⟩ := hbranch hsecond hclaims'
  rcases hbranches : T.branches alternatives (.object members) with _ | ⟨only, _ | ⟨other, rest⟩⟩
  · exact absurd (hbranches ▸ hmem₁) List.not_mem_nil
  · obtain rfl : branch = only := List.mem_singleton.1 (hbranches ▸ hmem₁)
    obtain rfl : branch' = branch := List.mem_singleton.1 (hbranches ▸ hmem₂)
    cases branch' with
    | single only =>
      exact absurd ((List.mem_singleton.1 hrefs₁).trans (List.mem_singleton.1 hrefs₂).symm) hne
    -- Both are checks of objects, so it is the dispatch between them that meets the ambiguity.
    | objects objects =>
      have hobjects : ∀ o ∈ objects, o ∈ nodes := fun o ho ↦
        (h.mem_branches hr hcheck hmem₁ ho).1
      have hadmits {o : ρ} (ho : o ∈ objects) (hclaims : T.Claims path members o) :
          T.admits path members (.ref o) = true :=
        h.admits_of_claims (hobjects o ho) ((isObject_of_mem_branches hmem₁).2 o ho) hclaims
      have htwo : 2 ≤ (objects.map View.ref).countP (T.admits path members) := by
        rw [List.countP_map]
        exact two_le_countP_of_mem hne hrefs₁ hrefs₂ (hadmits hrefs₁ hclaims)
          (hadmits hrefs₂ hclaims')
      obtain ⟨failure, hfailures, hambiguity⟩ :=
        (h.dispatchViews_exclusive (View.mem_of_mem_refs_map_ref hobjects)).2.1 htwo
      rw [h.failures_eq hr, hcheck]
      simp only [hbranches, dispatch_map_ref, closeObject, hfailures]
      split
      · exact ⟨failure, [], rfl, hambiguity⟩
      · exact ⟨failure, _, rfl, hambiguity⟩
  · exact ⟨_, [], h.failures_eq_of_two_le hr hcheck (by simp [hbranches]), rfl⟩

end Table

end JsonPattern
