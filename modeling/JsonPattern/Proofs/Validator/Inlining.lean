import JsonPattern.Proofs.Pattern.Places
import JsonPattern.Proofs.Validator.Disjunction
import JsonPattern.Proofs.Validator.Rewording

/-!
# Inlined objects

A flattened object takes members as its clauses do and is opened by what opens them, so its clauses
can be written out in its place. They need not blend in, though: a flattened object is no optional
group, so it closes its list to what follows it, even if all its clauses are optional and would not.
This shows only where it is asked what opens the list. It is asked of every group inside an object;
of the list of the object itself it may never be.
-/

namespace JsonPattern

namespace Table

variable {ρ : Type} [DecidableEq ρ] {T U : Table ρ} {nodes : Set ρ} {rank : ρ → Nat}
  {owner target : ρ} {place : Place ρ} {clauses : List (Clause ρ)}

/-! ### Clauses that blend in -/

/-- What stands for each other in the list of a gap does so in all that is around it. -/
theorem Interchanges.fill {xs ys : List (Clause ρ)} (place : Place ρ)
    (h : T.Interchanges (place.before ++ xs ++ place.after) (place.before ++ ys ++ place.after)) :
    T.Interchanges (place.fill xs) (place.fill ys) := by
  induction place with
  | here before after => exact h
  | optional before inner after ih => exact (ih h).optional.inLine rfl before after
  | oneOf before earlier inner later after ih =>
    exact ((ih h).oneOf earlier later).inLine rfl before after

/-- Whether what fills a gap closes its list makes no difference: the list is closed in front of the
gap, the clauses close it as a flattened object does, or nothing behind the gap may open it. -/
inductive Blends (T : Table ρ) (place : Place ρ) (clauses : List (Clause ρ)) : Prop
  | behind (h : place.before.all Clause.isOptional = false)
  | closing (h : clauses.all Clause.isOptional = false)
  | last (h : T.firstNames (.group place.after) = ∅)

namespace Ranked

variable (h : T.Ranked nodes rank) (htarget : target ∈ nodes)
  (hcheck : T.check target = .object clauses)

include h htarget hcheck

/-- The clauses of an object can stand for the object flattened. -/
theorem interchanges_flatten : T.Interchanges [.flatten target] clauses where
  sameOpenings :=
    (SameOpenings.flatten target).symm.trans (h.sameOpenings_object htarget hcheck)
  sameTakes deeper path members := by rw [takeView_flatten, h.takeView_ref_eq htarget, hcheck]

theorem interchanges_of_blends (hblends : T.Blends place clauses) :
    T.Interchanges (place.fill [.flatten target]) (place.fill clauses) := by
  have hflatten := h.interchanges_flatten htarget hcheck
  refine .fill place ?_
  cases hblends with
  | behind hbefore =>
    refine ⟨?_, hflatten.sameTakes.inLine place.before place.after⟩
    rw [List.append_assoc, List.append_assoc]
    exact .append_of_closed hbefore _ _
  | closing hclauses => exact hflatten.inLine hclauses place.before place.after
  | last hafter =>
    -- Both lists are opened as they are without what follows.
    refine ⟨?_, hflatten.sameTakes.inLine place.before place.after⟩
    have hbefore := hflatten.sameOpenings.append_left place.before
    exact ((SameOpenings.append_of_firstNames_eq_empty hafter _).symm.trans hbefore).trans
      (.append_of_firstNames_eq_empty hafter _)

end Ranked

/-! ### Tables with an object inlined -/

/-- A table is another one with the clauses of an object written out at a place where an owner
flattens it. -/
structure Inlines (T U : Table ρ) (nodes : Set ρ) (owner target : ρ) (place : Place ρ)
    (clauses : List (Clause ρ)) : Prop extends T.LooksLike U where
  /-- All checks but that of the owner are the same. -/
  check_eq : ∀ r ∈ nodes, r ≠ owner → U.check r = T.check r
  /-- The owner flattens the object. -/
  check_owner : T.check owner = .object (place.fill [.flatten target])
  /-- The clauses are written out instead. -/
  check_owner' : U.check owner = .object (place.fill clauses)
  /-- The object has these clauses. -/
  check_target : T.check target = .object clauses

theorem Opened.mem (hT : T.Ranked nodes rank) {r : ρ} (h : T.Opened nodes r) : r ∈ nodes := by
  induction h with
  | chosen hr hcheck hbranch ho => exact (hT.mem_branches hr hcheck hbranch ho).1
  | flattened hr hcheck ht htarget ha =>
    exact (hT.mem_of_oneOf (hT.target_of_object hr hcheck _ ht).1 htarget ha).1
  | inner hr hcheck hgroup ht =>
    exact (hT.target_of_object hr hcheck _
      ((subset_of_mem_groupInnerGroups _ _ hgroup).2 (groupOpeningTargets_subset _ ht))).1
  | alternative _ hcheck ha hr => exact (hT.mem_of_oneOf hr hcheck ha).1
  | opening _ hcheck ht hr =>
    exact (hT.target_of_object hr hcheck _ (groupOpeningTargets_subset _ ht)).1

/-- It is only asked what opens alternatives and flatten targets. -/
theorem Opened.exists_unguarded (hT : T.Ranked nodes rank) {r : ρ} (h : T.Opened nodes r) :
    ∃ s ∈ nodes, r ∈ (T.check s).unguardedRefs := by
  cases h with
  | @chosen s _ alternatives objects value hs hcheck hbranch ho =>
    obtain ⟨clauses, hobject⟩ :=
      exists_clauses_of_isObject ((isObject_of_mem_branches hbranch).2 r ho)
    have hleaf : T.IsLeafBelow s r :=
      hT.isLeafBelow_of_mem_branches hs hcheck hbranch ho ⟨.refl, by simp [hobject]⟩
    rcases hleaf.reached.cases_tail with rfl | ⟨last, hreached, others, hother, hmem⟩
    · simp [hobject] at hcheck
    · exact ⟨last, hT.mem_of_reached hs hreached, by rw [hother]; exact hmem⟩
  | flattened hs hcheck ht htarget ha =>
    exact ⟨_, (hT.target_of_object hs hcheck _ ht).1, by rw [htarget]; exact ha⟩
  | inner hs hcheck hgroup ht =>
    refine ⟨_, hs, ?_⟩
    rw [hcheck]
    exact (subset_of_mem_groupInnerGroups _ _ hgroup).2 (groupOpeningTargets_subset _ ht)
  | alternative hs hcheck ha => exact ⟨_, hs.mem hT, by rw [hcheck]; exact ha⟩
  | opening hs hcheck ht =>
    exact ⟨_, hs.mem hT, by rw [hcheck]; exact groupOpeningTargets_subset _ ht⟩

namespace Inlines

variable (h : T.Inlines U nodes owner target place clauses) (hT : T.Ranked nodes rank)

include h hT

omit [DecidableEq ρ] in
theorem target_mem (howner : owner ∈ nodes) : target ∈ nodes ∧ rank target < rank owner :=
  hT.target_of_object howner h.check_owner target
    (place.mem_groupFlattenTargets_fill.2 (.inr List.mem_cons_self))

omit [DecidableEq ρ] in
/-- The rank still decreases wherever the value is not descended into. -/
theorem ranked : U.Ranked nodes rank := by
  refine ⟨fun r hr next hnext ↦ ?_, fun r hr ↦ (hT.lt_hops r hr).trans_eq h.hops_eq.symm,
    fun r hr next hnext ↦ ?_⟩
  · by_cases heq : r = owner
    · obtain rfl := heq
      rw [h.check_owner'] at hnext
      rcases place.mem_groupRefs_fill.1 hnext with hnext | hnext
      · exact hT.mem_of_object hr h.check_owner next (place.mem_groupRefs_fill.2 (.inl hnext))
      · exact hT.mem_of_object (h.target_mem hT hr).1 h.check_target next hnext
    · rw [h.check_eq r hr heq] at hnext
      exact hT.closed r hr next hnext
  · by_cases heq : r = owner
    · obtain rfl := heq
      rw [h.check_owner'] at hnext
      rcases place.mem_groupFlattenTargets_fill.1 hnext with hnext | hnext
      · exact (hT.target_of_object hr h.check_owner next
          (place.mem_groupFlattenTargets_fill.2 (.inl hnext))).2
      · obtain ⟨htarget, hlt⟩ := h.target_mem hT hr
        exact (hT.target_of_object htarget h.check_target next hnext).2.trans hlt
    · rw [h.check_eq r hr heq] at hnext
      exact hT.descends r hr next hnext

/-- If it is not asked what opens an owner that has the object in line, nothing else is asked for
once the object is inlined. -/
theorem opened_of_opened (hplace : owner ∈ nodes → ∃ before after, place = .here before after)
    (hclosed : ¬ T.Opened nodes owner) {r : ρ} (hr : U.Opened nodes r) : T.Opened nodes r := by
  induction hr with
  | chosen hr hcheck hbranch ho =>
    rw [h.branches_eq] at hbranch
    exact .chosen hr (h.check_eq_of_isObject' hcheck rfl) hbranch ho
  | @flattened r t a others alternatives hr hcheck ht htarget ha =>
    have htarget := h.check_eq_of_isObject' htarget rfl
    by_cases heq : r = owner
    · obtain rfl := heq
      obtain rfl : others = place.fill clauses :=
        Check.object.inj (hcheck.symm.trans h.check_owner')
      rcases place.mem_groupFlattenTargets_fill.1 ht with ht | ht
      · exact .flattened hr h.check_owner (place.mem_groupFlattenTargets_fill.2 (.inl ht)) htarget
          ha
      · -- What the owner flattens now, the object flattened before.
        exact .flattened (h.target_mem hT hr).1 h.check_target ht htarget ha
    · exact .flattened hr (h.check_eq r hr heq ▸ hcheck) ht htarget ha
  | @inner r t others group hr hcheck hgroup ht =>
    by_cases heq : r = owner
    · obtain rfl := heq
      obtain rfl : others = place.fill clauses :=
        Check.object.inj (hcheck.symm.trans h.check_owner')
      obtain ⟨before, after, rfl⟩ := hplace hr
      rw [Place.fill, groupInnerGroups_append, groupInnerGroups_append] at hgroup
      have howner : T.check r = .object (before ++ [.flatten target] ++ after) := h.check_owner
      rcases List.mem_append.1 hgroup with hgroup | hgroup
      · rcases List.mem_append.1 hgroup with hgroup | hgroup
        · refine .inner hr howner ?_ ht
          rw [groupInnerGroups_append, groupInnerGroups_append]
          exact List.mem_append_left _ (List.mem_append_left _ hgroup)
        · exact .inner (h.target_mem hT hr).1 h.check_target hgroup ht
      · refine .inner hr howner ?_ ht
        rw [groupInnerGroups_append]
        exact List.mem_append_right _ hgroup
    · exact .inner hr (h.check_eq r hr heq ▸ hcheck) hgroup ht
  | alternative _ hcheck ha ih => exact .alternative ih (h.check_eq_of_isObject' hcheck rfl) ha
  | @opening r t others _ hcheck ht ih =>
    have heq : r ≠ owner := fun heq ↦ hclosed (heq ▸ ih)
    exact .opening ih (h.check_eq r (ih.mem hT) heq ▸ hcheck) ht

/-- Where the clauses of the object blend in, or where it is not asked what opens the owner that has
the object in line, the table is a rewording. -/
theorem reworded (hblends : T.Blends place clauses ∨
    (owner ∈ nodes → ∃ before after, place = .here before after) ∧ ¬ T.Opened nodes owner) :
    T.Reworded U nodes := by
  have hflatten (howner : owner ∈ nodes) : T.Interchanges [.flatten target] clauses :=
    hT.interchanges_flatten (h.target_mem hT howner).1 h.check_target
  have hfill (howner : owner ∈ nodes) (hblends : T.Blends place clauses) :
      T.Interchanges (place.fill [.flatten target]) (place.fill clauses) :=
    hT.interchanges_of_blends (h.target_mem hT howner).1 h.check_target hblends
  refine ⟨h.toLooksLike, fun r hr others others' hcheck hcheck' ↦ ?_,
    fun r hr hopened others others' hcheck hcheck' ↦ ?_⟩
  · by_cases heq : r = owner
    · obtain rfl := heq
      obtain rfl := Check.object.inj (hcheck.symm.trans h.check_owner)
      obtain rfl := Check.object.inj (hcheck'.symm.trans h.check_owner')
      rcases hblends with hblends | ⟨hplace, -⟩
      · exact (hfill hr hblends).sameTakes
      · obtain ⟨before, after, rfl⟩ := hplace hr
        exact (hflatten hr).sameTakes.inLine before after
    · rw [h.check_eq r hr heq, hcheck] at hcheck'
      obtain rfl := Check.object.inj hcheck'
      exact fun _ _ _ ↦ rfl
  · by_cases heq : r = owner
    · obtain rfl := heq
      obtain rfl := Check.object.inj (hcheck.symm.trans h.check_owner)
      obtain rfl := Check.object.inj (hcheck'.symm.trans h.check_owner')
      rcases hblends with hblends | ⟨hplace, hclosed⟩
      · exact (hfill hr hblends).sameOpenings
      · exact absurd (h.opened_of_opened hT hplace hclosed hopened) hclosed
    · rw [h.check_eq r hr heq, hcheck] at hcheck'
      obtain rfl := Check.object.inj hcheck'
      exact .refl _

end Inlines

end Table

end JsonPattern
