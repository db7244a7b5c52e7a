import JsonPattern.Pattern.Basic
import Mathlib.Logic.Basic

/-!
# References of clauses and bodies

Flatten targets are references, and replacing references twice is replacing them once.
-/

namespace JsonPattern

variable {ρ σ τ : Type}

mutual

theorem Clause.flattenTargets_subset : (clause : Clause ρ) → clause.flattenTargets ⊆ clause.refs
  | .named _ _ => List.nil_subset _
  | .optional group => groupFlattenTargets_subset group
  | .many _ => List.nil_subset _
  | .flatten _ => List.Subset.refl _
  | .oneOf groups => groupsFlattenTargets_subset groups

theorem groupFlattenTargets_subset : (group : List (Clause ρ)) →
    groupFlattenTargets group ⊆ groupRefs group
  | [] => List.nil_subset _
  | clause :: group => List.append_subset.2
      ⟨fun _ h ↦ List.mem_append_left _ (clause.flattenTargets_subset h),
        fun _ h ↦ List.mem_append_right _ (groupFlattenTargets_subset group h)⟩

theorem groupsFlattenTargets_subset : (groups : List (List (Clause ρ))) →
    groupsFlattenTargets groups ⊆ groupsRefs groups
  | [] => List.nil_subset _
  | group :: groups => List.append_subset.2
      ⟨fun _ h ↦ List.mem_append_left _ (groupFlattenTargets_subset group h),
        fun _ h ↦ List.mem_append_right _ (groupsFlattenTargets_subset groups h)⟩

end

mutual

theorem Clause.map_map (f : ρ → σ) (h : σ → τ) : (clause : Clause ρ) →
    (clause.map f).map h = clause.map (h ∘ f)
  | .named _ _ => rfl
  | .optional group => congrArg Clause.optional (groupMap_groupMap f h group)
  | .many _ => rfl
  | .flatten _ => rfl
  | .oneOf groups => congrArg Clause.oneOf (groupsMap_groupsMap f h groups)

theorem groupMap_groupMap (f : ρ → σ) (h : σ → τ) : (group : List (Clause ρ)) →
    groupMap h (groupMap f group) = groupMap (h ∘ f) group
  | [] => rfl
  | clause :: group => congrArg₂ List.cons (clause.map_map f h) (groupMap_groupMap f h group)

theorem groupsMap_groupsMap (f : ρ → σ) (h : σ → τ) : (groups : List (List (Clause ρ))) →
    groupsMap h (groupsMap f groups) = groupsMap (h ∘ f) groups
  | [] => rfl
  | group :: groups => congrArg₂ List.cons (groupMap_groupMap f h group)
      (groupsMap_groupsMap f h groups)

end

/-! ### Lists of clauses and of groups -/

theorem Clause.flattenTargets_subset_of_mem {clause : Clause ρ} {group : List (Clause ρ)}
    (h : clause ∈ group) : clause.flattenTargets ⊆ groupFlattenTargets group := by
  induction group with
  | nil => exact absurd h List.not_mem_nil
  | cons other group ih =>
    rcases List.mem_cons.1 h with rfl | h
    · exact List.subset_append_left ..
    · exact List.Subset.trans (ih h) (List.subset_append_right ..)

theorem Clause.refs_subset_of_mem {clause : Clause ρ} {group : List (Clause ρ)}
    (h : clause ∈ group) : clause.refs ⊆ groupRefs group := by
  induction group with
  | nil => exact absurd h List.not_mem_nil
  | cons other group ih =>
    rcases List.mem_cons.1 h with rfl | h
    · exact List.subset_append_left ..
    · exact List.Subset.trans (ih h) (List.subset_append_right ..)

theorem groupMap_eq_map (f : ρ → σ) (group : List (Clause ρ)) :
    groupMap f group = group.map (Clause.map f) := by
  induction group with
  | nil => rfl
  | cons clause group ih => exact congrArg _ ih

theorem groupsMap_eq_map (f : ρ → σ) (groups : List (List (Clause ρ))) :
    groupsMap f groups = groups.map (groupMap f) := by
  induction groups with
  | nil => rfl
  | cons group groups ih => exact congrArg _ ih

theorem groupRefs_subset_of_mem {groups : List (List (Clause ρ))} {group : List (Clause ρ)}
    (h : group ∈ groups) : groupRefs group ⊆ groupsRefs groups := by
  induction groups with
  | nil => exact absurd h List.not_mem_nil
  | cons other groups ih =>
    rcases List.mem_cons.1 h with rfl | h
    · exact List.subset_append_left ..
    · exact List.Subset.trans (ih h) (List.subset_append_right ..)

theorem groupFlattenTargets_subset_of_mem {groups : List (List (Clause ρ))}
    {group : List (Clause ρ)} (h : group ∈ groups) :
    groupFlattenTargets group ⊆ groupsFlattenTargets groups := by
  induction groups with
  | nil => exact absurd h List.not_mem_nil
  | cons other groups ih =>
    rcases List.mem_cons.1 h with rfl | h
    · exact List.subset_append_left ..
    · exact List.Subset.trans (ih h) (List.subset_append_right ..)

theorem groupRefs_append (xs ys : List (Clause ρ)) :
    groupRefs (xs ++ ys) = groupRefs xs ++ groupRefs ys := by
  induction xs with
  | nil => rfl
  | cons clause xs ih => rw [List.cons_append, groupRefs, groupRefs, ih, List.append_assoc]

theorem groupsRefs_append (xs ys : List (List (Clause ρ))) :
    groupsRefs (xs ++ ys) = groupsRefs xs ++ groupsRefs ys := by
  induction xs with
  | nil => rfl
  | cons group xs ih => rw [List.cons_append, groupsRefs, groupsRefs, ih, List.append_assoc]

theorem groupFlattenTargets_append (xs ys : List (Clause ρ)) :
    groupFlattenTargets (xs ++ ys) = groupFlattenTargets xs ++ groupFlattenTargets ys := by
  induction xs with
  | nil => rfl
  | cons clause xs ih =>
    rw [List.cons_append, groupFlattenTargets, groupFlattenTargets, ih, List.append_assoc]

theorem groupsFlattenTargets_append (xs ys : List (List (Clause ρ))) :
    groupsFlattenTargets (xs ++ ys) = groupsFlattenTargets xs ++ groupsFlattenTargets ys := by
  induction xs with
  | nil => rfl
  | cons group xs ih =>
    rw [List.cons_append, groupsFlattenTargets, groupsFlattenTargets, ih, List.append_assoc]

/-! ### Replacing references -/

theorem Clause.isOptional_map (f : ρ → σ) (clause : Clause ρ) :
    (clause.map f).isOptional = clause.isOptional := by
  cases clause <;> rfl

theorem all_isOptional_groupMap (f : ρ → σ) (group : List (Clause ρ)) :
    (groupMap f group).all Clause.isOptional = group.all Clause.isOptional := by
  rw [groupMap_eq_map, List.all_map]
  exact List.all_congr rfl fun clause ↦ clause.isOptional_map f

mutual

theorem Clause.map_id : (clause : Clause ρ) → clause.map id = clause
  | .named _ _ => rfl
  | .optional group => congrArg Clause.optional (groupMap_id group)
  | .many _ => rfl
  | .flatten _ => rfl
  | .oneOf groups => congrArg Clause.oneOf (groupsMap_id groups)

theorem groupMap_id : (group : List (Clause ρ)) → groupMap id group = group
  | [] => rfl
  | clause :: group => congrArg₂ List.cons clause.map_id (groupMap_id group)

theorem groupsMap_id : (groups : List (List (Clause ρ))) → groupsMap id groups = groups
  | [] => rfl
  | group :: groups => congrArg₂ List.cons (groupMap_id group) (groupsMap_id groups)

end

mutual

theorem Clause.refs_map (f : ρ → σ) : (clause : Clause ρ) →
    (clause.map f).refs = clause.refs.map f
  | .named _ _ => rfl
  | .optional group => groupRefs_map f group
  | .many _ => rfl
  | .flatten _ => rfl
  | .oneOf groups => groupsRefs_map f groups

theorem groupRefs_map (f : ρ → σ) : (group : List (Clause ρ)) →
    groupRefs (groupMap f group) = (groupRefs group).map f
  | [] => rfl
  | clause :: group => by
    rw [groupMap, groupRefs, groupRefs, clause.refs_map f, groupRefs_map f group, List.map_append]

theorem groupsRefs_map (f : ρ → σ) : (groups : List (List (Clause ρ))) →
    groupsRefs (groupsMap f groups) = (groupsRefs groups).map f
  | [] => rfl
  | group :: groups => by
    rw [groupsMap, groupsRefs, groupsRefs, groupRefs_map f group, groupsRefs_map f groups,
      List.map_append]

end

mutual

theorem Clause.flattenTargets_map (f : ρ → σ) : (clause : Clause ρ) →
    (clause.map f).flattenTargets = clause.flattenTargets.map f
  | .named _ _ => rfl
  | .optional group => groupFlattenTargets_map f group
  | .many _ => rfl
  | .flatten _ => rfl
  | .oneOf groups => groupsFlattenTargets_map f groups

theorem groupFlattenTargets_map (f : ρ → σ) : (group : List (Clause ρ)) →
    groupFlattenTargets (groupMap f group) = (groupFlattenTargets group).map f
  | [] => rfl
  | clause :: group => by
    rw [groupMap, groupFlattenTargets, groupFlattenTargets, clause.flattenTargets_map f,
      groupFlattenTargets_map f group, List.map_append]

theorem groupsFlattenTargets_map (f : ρ → σ) : (groups : List (List (Clause ρ))) →
    groupsFlattenTargets (groupsMap f groups) = (groupsFlattenTargets groups).map f
  | [] => rfl
  | group :: groups => by
    rw [groupsMap, groupsFlattenTargets, groupsFlattenTargets, groupFlattenTargets_map f group,
      groupsFlattenTargets_map f groups, List.map_append]

end

/-- What is followed without descending into the value is a reference. -/
theorem Shape.unguardedRefs_subset (shape : Shape ρ) : shape.unguardedRefs ⊆ shape.refs := by
  cases shape with
  | object clauses => exact groupFlattenTargets_subset clauses
  | oneOf alternatives => exact List.Subset.refl _
  | literal | type | regex | arrayOf | anything => exact List.nil_subset _

end JsonPattern
