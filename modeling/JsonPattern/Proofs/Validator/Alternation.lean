import JsonPattern.Proofs.Validator.Disjunction

/-!
# Alternations of objects

A disjunction of several objects, an object with an alternation of their clauses, and an object that
flattens the disjunction all come to the same dispatch, which is closed in the same way.
-/

namespace JsonPattern

namespace Table

variable {ρ : Type} [DecidableEq ρ] {T : Table ρ} {nodes : Set ρ} {rank : ρ → Nat} {path : Path}
  {members : Members} {r : ρ} {objects : List ρ} {groups : List (List (Clause ρ))}

/-! ### Branches -/

omit [DecidableEq ρ] in
theorem leaves_of_isObject (hobjects : ∀ o ∈ objects, T.isObject o = true) :
    T.leaves objects = objects := by
  have hleaf : ∀ o ∈ objects, T.leavesWithin T.hops o = [o] := fun o ho ↦ by
    obtain ⟨clauses, hcheck⟩ := exists_clauses_of_isObject (hobjects o ho)
    cases T.hops with
    | zero => rfl
    | succ hops => rw [leavesWithin, hcheck]
  rw [leaves, List.flatMap_congr hleaf]
  exact List.flatMap_singleton' objects

/-- Between several different objects the members decide. -/
theorem branches_of_isObject (hobjects : ∀ o ∈ objects, T.isObject o = true)
    (hnodup : objects.Nodup) (htwo : 2 ≤ objects.length) :
    T.branches objects (.object members) = [.objects objects] := by
  have hsplice : T.splice objects = objects := by
    rw [splice_eq_foldl, leaves_of_isObject hobjects]
    exact foldl_addLeaf_of_nodup hnodup
  have hfilter : objects.filter T.isObject = objects := List.filter_eq_self.2 hobjects
  have hsingles (rs : List ρ) (hrs : rs ⊆ objects) :
      (rs.filter fun o ↦ !T.isObject o && T.fits o (.object members)) = [] :=
    List.filter_eq_nil_iff.2 fun o ho ↦ by simp [hobjects o (hrs ho)]
  have hbefore := hsingles _ (List.takeWhile_sublist (fun o ↦ !T.isObject o)).subset
  have hafter := hsingles _ (List.dropWhile_sublist (fun o ↦ !T.isObject o)).subset
  rw [branches, branchesBy, if_pos (by rfl), hsplice, groupBranches, hfilter]
  obtain _ | ⟨first, _ | ⟨second, rest⟩⟩ := objects
  · cases htwo
  · exact absurd htwo (by simp)
  · simp only [hbefore, hafter, List.map_nil, List.nil_append]

/-! ### Three forms -/

namespace Ranked

variable (h : T.Ranked nodes rank) (hr : r ∈ nodes)

include h hr

/-- A disjunction of several objects dispatches between them. -/
theorem failures_of_disjunction (hcheck : T.check r = .oneOf objects)
    (hobjects : ∀ o ∈ objects, T.isObject o = true) (hnodup : objects.Nodup)
    (htwo : 2 ≤ objects.length) : T.failures r path (.object members) =
      closeObject path (T.dispatchViews path (objects.map .ref) members) := by
  rw [h.failures_eq hr, hcheck]
  simp only [branches_of_isObject hobjects hnodup htwo, dispatch_map_ref]

/-- An object with a single alternation dispatches between its groups. -/
theorem failures_of_alternation (hcheck : T.check r = .object [.oneOf groups]) :
    T.failures r path (.object members) =
      closeObject path (T.dispatchViews path (groups.map .group) members) := by
  rw [h.failures_eq hr, hcheck]
  simp only [takeView_oneOf, dispatchViews, alternativesOf, List.map_map]
  rfl

/-- An object that flattens a disjunction dispatches between its alternatives. -/
theorem failures_of_flatten {target : ρ} (hcheck : T.check r = .object [.flatten target])
    (htarget : T.check target = .oneOf objects) : T.failures r path (.object members) =
      closeObject path (T.dispatchViews path (objects.map .ref) members) := by
  have hmem : target ∈ nodes := h.mem_of_object hr hcheck target List.mem_cons_self
  have htake : T.takeView T.failures path (.ref target) members = _ := h.takeView_ref_eq hmem
  rw [htarget] at htake
  rw [h.failures_eq hr, hcheck]
  simp only [takeView_flatten, htake, dispatch_map_ref]

omit hr in
/-- Objects, and the groups of their clauses, make the same dispatch. -/
theorem dispatchViews_ref_eq (hobjects : ∀ o ∈ objects, o ∈ nodes)
    (hchecks : objects.map T.check = groups.map .object) :
    T.dispatchViews path (groups.map .group) members =
      T.dispatchViews path (objects.map .ref) members := by
  have hforall : List.Forall₂ (fun o clauses ↦ o ∈ nodes ∧ T.check o = .object clauses) objects
      groups := by
    have heq : List.Forall₂ (fun o clauses ↦ T.check o = .object clauses) objects groups :=
      List.forall₂_map_left_iff.1 (List.forall₂_map_right_iff.1 (List.forall₂_eq_eq_eq ▸ hchecks))
    exact (List.forall₂_and_left objects groups).2 ⟨hobjects, heq⟩
  refine dispatch_congr ?_
  simp only [alternativesOf, List.map_map, List.forall₂_map_left_iff, List.forall₂_map_right_iff]
  refine hforall.imp ?_
  rintro o clauses ⟨ho, hcheck⟩
  refine ⟨(h.sameOpenings_object ho hcheck).opensAlike fun _ ↦ rfl, ?_⟩
  simp only [Function.comp, h.takeView_ref_eq ho, hcheck]

end Ranked

end Table

end JsonPattern
