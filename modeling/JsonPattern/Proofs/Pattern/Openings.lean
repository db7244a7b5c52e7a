import JsonPattern.Proofs.Pattern.References

/-!
# Targets that open clauses

What may open a list of clauses is looked up in its leading clauses only, and it is asked of the
groups inside a list rather than of the list itself.
-/

namespace JsonPattern

variable {ρ σ : Type}

/-! ### Opening targets -/

mutual

/-- The flatten targets that may open a clause. -/
def Clause.openingTargets : Clause ρ → List ρ
  | .named _ _ => []
  | .optional group => groupOpeningTargets group
  | .many _ => []
  | .flatten target => [target]
  | .oneOf groups => groupsOpeningTargets groups
termination_by structural clause => clause

/-- The flatten targets that may open a list of clauses. -/
def groupOpeningTargets : List (Clause ρ) → List ρ
  | [] => []
  | clause :: group =>
    if clause.isOptional then clause.openingTargets ++ groupOpeningTargets group
    else clause.openingTargets
termination_by structural group => group

/-- The flatten targets that may open one of several groups. -/
def groupsOpeningTargets : List (List (Clause ρ)) → List ρ
  | [] => []
  | group :: groups => groupOpeningTargets group ++ groupsOpeningTargets groups
termination_by structural groups => groups

end

/-- A clause of a list may open it, and so may the clauses after it if it is optional. -/
theorem forall_groupOpeningTargets_cons {clause : Clause ρ} {group : List (Clause ρ)}
    {P : ρ → Prop} (h : ∀ t ∈ groupOpeningTargets (clause :: group), P t) :
    (∀ t ∈ clause.openingTargets, P t) ∧
      (clause.isOptional = true → ∀ t ∈ groupOpeningTargets group, P t) := by
  rw [groupOpeningTargets] at h
  split at h
  · exact ⟨fun t ht ↦ h t (List.mem_append_left _ ht),
      fun _ t ht ↦ h t (List.mem_append_right _ ht)⟩
  · next hoptional => exact ⟨h, fun hopt ↦ absurd hopt hoptional⟩

mutual

theorem Clause.openingTargets_subset : (clause : Clause ρ) →
    clause.openingTargets ⊆ clause.flattenTargets
  | .named _ _ => List.nil_subset _
  | .optional group => groupOpeningTargets_subset group
  | .many _ => List.nil_subset _
  | .flatten _ => List.Subset.refl _
  | .oneOf groups => groupsOpeningTargets_subset groups

theorem groupOpeningTargets_subset : (group : List (Clause ρ)) →
    groupOpeningTargets group ⊆ groupFlattenTargets group
  | [] => List.nil_subset _
  | clause :: group => by
    have hclause := clause.openingTargets_subset
    rw [groupOpeningTargets, groupFlattenTargets]
    split
    · exact List.append_subset.2 ⟨List.subset_append_of_subset_left _ hclause,
        List.subset_append_of_subset_right _ (groupOpeningTargets_subset group)⟩
    · exact List.subset_append_of_subset_left _ hclause

theorem groupsOpeningTargets_subset : (groups : List (List (Clause ρ))) →
    groupsOpeningTargets groups ⊆ groupsFlattenTargets groups
  | [] => List.nil_subset _
  | group :: groups => List.append_subset.2
      ⟨List.subset_append_of_subset_left _ (groupOpeningTargets_subset group),
        List.subset_append_of_subset_right _ (groupsOpeningTargets_subset groups)⟩

end

/-! ### Inner groups -/

mutual

/-- The groups inside a clause, at any depth. -/
def Clause.innerGroups : Clause ρ → List (List (Clause ρ))
  | .named _ _ => []
  | .optional group => group :: groupInnerGroups group
  | .many _ => []
  | .flatten _ => []
  | .oneOf groups => groupsInnerGroups groups
termination_by structural clause => clause

/-- The groups inside the clauses of a list. -/
def groupInnerGroups : List (Clause ρ) → List (List (Clause ρ))
  | [] => []
  | clause :: group => clause.innerGroups ++ groupInnerGroups group
termination_by structural group => group

/-- Several groups and the groups inside them. -/
def groupsInnerGroups : List (List (Clause ρ)) → List (List (Clause ρ))
  | [] => []
  | group :: groups => (group :: groupInnerGroups group) ++ groupsInnerGroups groups
termination_by structural groups => groups

end

theorem mem_groupsInnerGroups {groups : List (List (Clause ρ))} {group : List (Clause ρ)}
    (h : group ∈ groups) : group ∈ groupsInnerGroups groups := by
  induction groups with
  | nil => exact absurd h List.not_mem_nil
  | cons first groups ih =>
    rcases List.mem_cons.1 h with rfl | h
    · exact List.mem_append_left _ List.mem_cons_self
    · exact List.mem_append_right _ (ih h)

mutual

theorem Clause.subset_of_mem_innerGroups : (clause : Clause ρ) → ∀ group ∈ clause.innerGroups,
    groupRefs group ⊆ clause.refs ∧ groupFlattenTargets group ⊆ clause.flattenTargets
  | .named _ _, _, h => absurd h List.not_mem_nil
  | .optional own, group, h =>
    (List.mem_cons.1 h).elim (fun he ↦ he ▸ ⟨List.Subset.refl _, List.Subset.refl _⟩)
      (subset_of_mem_groupInnerGroups own group)
  | .many _, _, h => absurd h List.not_mem_nil
  | .flatten _, _, h => absurd h List.not_mem_nil
  | .oneOf groups, group, h => subset_of_mem_groupsInnerGroups groups group h

/-- A group inside a list refers to what the list refers to, and flattens what the list does. -/
theorem subset_of_mem_groupInnerGroups : (clauses : List (Clause ρ)) →
    ∀ group ∈ groupInnerGroups clauses, groupRefs group ⊆ groupRefs clauses ∧
      groupFlattenTargets group ⊆ groupFlattenTargets clauses
  | [], _, h => absurd h List.not_mem_nil
  | clause :: clauses, group, h => (List.mem_append.1 h).elim
      (fun h ↦ (clause.subset_of_mem_innerGroups group h).imp
        (List.subset_append_of_subset_left _) (List.subset_append_of_subset_left _))
      fun h ↦ (subset_of_mem_groupInnerGroups clauses group h).imp
        (List.subset_append_of_subset_right _) (List.subset_append_of_subset_right _)

theorem subset_of_mem_groupsInnerGroups : (groups : List (List (Clause ρ))) →
    ∀ group ∈ groupsInnerGroups groups, groupRefs group ⊆ groupsRefs groups ∧
      groupFlattenTargets group ⊆ groupsFlattenTargets groups
  | [], _, h => absurd h List.not_mem_nil
  | first :: groups, group, h => by
    rcases List.mem_append.1 h with h | h
    · have hfirst : groupRefs group ⊆ groupRefs first ∧
          groupFlattenTargets group ⊆ groupFlattenTargets first := by
        rcases List.mem_cons.1 h with rfl | h
        · exact ⟨List.Subset.refl _, List.Subset.refl _⟩
        · exact subset_of_mem_groupInnerGroups first group h
      exact hfirst.imp (List.subset_append_of_subset_left _) (List.subset_append_of_subset_left _)
    · exact (subset_of_mem_groupsInnerGroups groups group h).imp
        (List.subset_append_of_subset_right _) (List.subset_append_of_subset_right _)

end

theorem groupInnerGroups_append (xs ys : List (Clause ρ)) :
    groupInnerGroups (xs ++ ys) = groupInnerGroups xs ++ groupInnerGroups ys := by
  induction xs with
  | nil => rfl
  | cons clause xs ih =>
    rw [List.cons_append, groupInnerGroups, groupInnerGroups, ih, List.append_assoc]

end JsonPattern
