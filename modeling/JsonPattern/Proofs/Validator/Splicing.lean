import JsonPattern.Proofs.Validator.Covering
import Mathlib.Logic.Relation

/-!
# The leaves below a disjunction

A leaf below a check is what is reached from it by opening disjunctions, however deep, and is no
disjunction itself. In a ranked table splicing finds the leaves below checks, all of them and
nothing else, and each leaf that an object fits has a part in one of the branches.
-/

namespace JsonPattern

namespace Table

variable {ρ : Type} {T : Table ρ}

/-- A check is a disjunction, and another one is among its alternatives. -/
def HasAlternative (T : Table ρ) (r a : ρ) : Prop :=
  ∃ alternatives, T.check r = .oneOf alternatives ∧ a ∈ alternatives

/-- A check that is no disjunction is reached from another one by opening disjunctions. -/
structure IsLeafBelow (T : Table ρ) (r leaf : ρ) : Prop where
  /-- Disjunctions lead to it. -/
  reached : Relation.ReflTransGen T.HasAlternative r leaf
  /-- It is no disjunction. -/
  check_ne : ∀ alternatives, T.check leaf ≠ .oneOf alternatives

theorem isLeafBelow_iff_of_oneOf {r leaf : ρ} {alternatives : List ρ}
    (hcheck : T.check r = .oneOf alternatives) :
    T.IsLeafBelow r leaf ↔ ∃ a ∈ alternatives, T.IsLeafBelow a leaf := by
  constructor
  · intro hleaf
    rcases hleaf.reached.cases_head with rfl | ⟨a, ⟨_, hcheck', ha⟩, hreached⟩
    · exact absurd hcheck (hleaf.check_ne alternatives)
    · obtain rfl : alternatives = _ := Check.oneOf.inj (hcheck.symm.trans hcheck')
      exact ⟨a, ha, hreached, hleaf.check_ne⟩
  · rintro ⟨a, ha, hleaf⟩
    exact ⟨hleaf.reached.head ⟨alternatives, hcheck, ha⟩, hleaf.check_ne⟩

theorem isLeafBelow_iff_eq {r leaf : ρ} (hcheck : ∀ alternatives, T.check r ≠ .oneOf alternatives) :
    T.IsLeafBelow r leaf ↔ leaf = r := by
  constructor
  · intro hleaf
    rcases hleaf.reached.cases_head with rfl | ⟨a, ⟨alternatives, hcheck', -⟩, -⟩
    · rfl
    · exact absurd hcheck' (hcheck alternatives)
  · rintro rfl
    exact ⟨.refl, hcheck⟩

variable {nodes : Set ρ} {rank : ρ → Nat}

theorem Ranked.mem_of_reached (h : T.Ranked nodes rank) {r s : ρ} (hr : r ∈ nodes)
    (hreached : Relation.ReflTransGen T.HasAlternative r s) : s ∈ nodes := by
  induction hreached with
  | refl => exact hr
  | tail _ hstep ih =>
    obtain ⟨alternatives, hcheck, ha⟩ := hstep
    exact (h.mem_of_oneOf ih hcheck ha).1

/-! ### Splicing -/

theorem Ranked.mem_leavesWithin_iff (h : T.Ranked nodes rank) {hops : Nat} {r leaf : ρ}
    (hr : r ∈ nodes) (hhops : rank r < hops) :
    leaf ∈ T.leavesWithin hops r ↔ T.IsLeafBelow r leaf := by
  induction hops generalizing r with
  | zero => exact absurd hhops (Nat.not_lt_zero _)
  | succ hops ih =>
    rw [leavesWithin]
    cases hcheck : T.check r with
    | oneOf alternatives =>
      rw [isLeafBelow_iff_of_oneOf hcheck, List.mem_flatMap]
      refine exists_congr fun a ↦ and_congr_right fun ha ↦ ?_
      obtain ⟨ha, hlt⟩ := h.mem_of_oneOf hr hcheck ha
      exact ih ha (by omega)
    | kind | literal | regex | arrayOf | object | anything =>
      rw [isLeafBelow_iff_eq (by simp [hcheck])]
      exact List.mem_singleton

/-- The number of hops does not matter above the rank. -/
theorem Ranked.leavesWithin_eq (h : T.Ranked nodes rank) {m n : Nat} {r : ρ} (hr : r ∈ nodes)
    (hm : rank r < m) (hn : rank r < n) : T.leavesWithin n r = T.leavesWithin m r := by
  have hmap := h.leavesWithin_map (U := T) (fun r _ ↦ (T.check r).map_id.symm) hr hm hn
  rwa [List.map_id'] at hmap

/-- The leaves below a disjunction are those below its alternatives. -/
theorem Ranked.leavesWithin_hops_eq (h : T.Ranked nodes rank) {r : ρ} {alternatives : List ρ}
    (hr : r ∈ nodes) (hcheck : T.check r = .oneOf alternatives) :
    T.leavesWithin T.hops r = T.leaves alternatives := by
  rw [← h.leavesWithin_eq hr (h.lt_hops r hr) (Nat.lt_succ_of_lt (h.lt_hops r hr)), leavesWithin,
    hcheck]
  rfl

variable [DecidableEq ρ]

/-- Splicing finds the leaves below checks. -/
theorem Ranked.mem_splice_iff (h : T.Ranked nodes rank) {rs : List ρ} {leaf : ρ}
    (hrs : ∀ r ∈ rs, r ∈ nodes) : leaf ∈ T.splice rs ↔ ∃ r ∈ rs, T.IsLeafBelow r leaf := by
  rw [mem_splice_iff_mem_leaves, leaves, List.mem_flatMap]
  exact exists_congr fun r ↦ and_congr_right fun hr ↦
    h.mem_leavesWithin_iff (hrs r hr) (h.lt_hops r (hrs r hr))

/-! ### Branches -/

omit [DecidableEq ρ] in
theorem exists_clauses_of_isObject {r : ρ} (h : T.isObject r = true) :
    ∃ clauses, T.check r = .object clauses := by
  rw [isObject] at h
  cases hcheck : T.check r with
  | object clauses => exact ⟨clauses, rfl⟩
  | kind | literal | regex | arrayOf | oneOf | anything => simp [hcheck, Check.isObject] at h

omit [DecidableEq ρ] in
/-- A leaf that is an object, or that fits, has a part in a branch. -/
theorem exists_branch_of_mem {fits : ρ → Bool} {leaves : List ρ} {leaf : ρ} (hleaf : leaf ∈ leaves)
    (hfits : T.isObject leaf = true ∨ fits leaf = true) :
    ∃ branch ∈ T.groupBranches fits leaves, leaf ∈ branch.refs := by
  have hsingle {rs : List ρ} (hmem : leaf ∈ rs) (hobject : T.isObject leaf = false) :
      Branch.single leaf ∈ (rs.filter fun r ↦ !T.isObject r && fits r).map Branch.single := by
    have hfits : fits leaf = true := hfits.resolve_left (by simp [hobject])
    exact List.mem_map_of_mem (List.mem_filter.2 ⟨hmem, by simp [hobject, hfits]⟩)
  have haround (hobject : T.isObject leaf = false) (group : Branch ρ) :
      Branch.single leaf ∈
        ((leaves.takeWhile fun r ↦ !T.isObject r).filter fun r ↦ !T.isObject r && fits r).map
            Branch.single ++
          group :: ((leaves.dropWhile fun r ↦ !T.isObject r).filter
            fun r ↦ !T.isObject r && fits r).map Branch.single := by
    rw [← List.takeWhile_append_dropWhile (p := fun r ↦ !T.isObject r) (l := leaves),
      List.mem_append] at hleaf
    exact List.mem_append.2
      (hleaf.imp (hsingle · hobject) fun hleaf ↦ List.mem_cons_of_mem group (hsingle hleaf hobject))
  have hobjects (hobject : T.isObject leaf = true) : leaf ∈ leaves.filter T.isObject :=
    List.mem_filter.2 ⟨hleaf, hobject⟩
  unfold groupBranches
  cases hobject : T.isObject leaf with
  | false =>
    refine ⟨.single leaf, ?_, List.mem_cons_self⟩
    split
    · exact hsingle hleaf hobject
    · exact haround hobject _
    · exact haround hobject _
  | true =>
    have hmem := hobjects hobject
    split
    · next hnil => exact absurd (hnil ▸ hmem) List.not_mem_nil
    · next only honly =>
      rw [honly] at hmem
      exact ⟨.single only, List.mem_append_right _ List.mem_cons_self, hmem⟩
    · exact ⟨.objects (leaves.filter T.isObject), List.mem_append_right _ List.mem_cons_self, hmem⟩

omit [DecidableEq ρ] in
/-- Between checks of objects only, the members decide. -/
theorem isObject_of_mem_objects {fits : ρ → Bool} {leaves objects : List ρ} {o : ρ}
    (hbranch : .objects objects ∈ T.groupBranches fits leaves) (ho : o ∈ objects) :
    T.isObject o = true := by
  have hsingle {rs : List ρ} : .objects objects ∉
      (rs.filter fun r ↦ !T.isObject r && fits r).map Branch.single := by simp
  unfold groupBranches at hbranch
  split at hbranch
  · exact absurd hbranch hsingle
  · rcases List.mem_append.1 hbranch with hbranch | hbranch
    · exact absurd hbranch hsingle
    · exact absurd ((List.mem_cons.1 hbranch).resolve_left nofun) hsingle
  · rcases List.mem_append.1 hbranch with hbranch | hbranch
    · exact absurd hbranch hsingle
    · rcases List.mem_cons.1 hbranch with he | hbranch
      · exact (List.mem_filter.1 (Branch.objects.inj he ▸ ho)).2
      · exact absurd hbranch hsingle

/-- The branches of a disjunction among which the members decide are checks of objects. -/
theorem isObject_of_mem_branches {alternatives objects : List ρ} {value : Json}
    (hbranch : .objects objects ∈ T.branches alternatives value) :
    value.isObject = true ∧ ∀ o ∈ objects, T.isObject o = true := by
  unfold branches branchesBy at hbranch
  split at hbranch
  · next hvalue => exact ⟨hvalue, fun o ho ↦ isObject_of_mem_objects hbranch ho⟩
  · simp at hbranch

end Table

end JsonPattern
