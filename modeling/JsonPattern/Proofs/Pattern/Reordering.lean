import JsonPattern.Proofs.Pattern.Checks
import JsonPattern.Proofs.UpToOrder

/-!
# Alternatives in another order

A body is a reordering of another one if it arises from it by permuting the alternatives of a
disjunction, or the groups of alternations, at any depth of its clauses. The clauses of a list stay
in their places. What is asked of clauses and bodies one by one does not depend on such an order.

## Main definitions

* `Clause.Reordered`, `GroupReordered` : clauses with the groups of alternations in another order,
  at any depth.
* `Shape.Reordered`, `Check.Reordered` : bodies and checks with their alternatives, or groups, in
  another order.
* `groupHasMany` : one of several clauses, at any depth, takes all members.

## Main results

* `Shape.Reordered.refs_perm` : the references are the same but for their order.
* `Shape.Reordered.check` : the checks of reordered bodies are reordered.
-/

namespace JsonPattern

variable {ρ σ : Type}

/-! ### Clauses -/

mutual

/-- A clause with the groups of any alternation, at any depth, in another order. -/
def Clause.Reordered : Clause ρ → Clause ρ → Prop
  | .optional group, d => ∃ other, d = .optional other ∧ GroupReordered group other
  | .oneOf groups, d => ∃ inOrder others, d = .oneOf others ∧
      GroupsReordered groups inOrder ∧ inOrder.Perm others
  | c, d => d = c
termination_by structural clause => clause

/-- A list of clauses, each with the groups of alternations in another order. -/
def GroupReordered : List (Clause ρ) → List (Clause ρ) → Prop
  | [], others => others = []
  | clause :: group, others => ∃ other rest, others = other :: rest ∧
      clause.Reordered other ∧ GroupReordered group rest
termination_by structural group => group

/-- A list of groups in their places, with the groups of alternations inside in another order. -/
def GroupsReordered : List (List (Clause ρ)) → List (List (Clause ρ)) → Prop
  | [], others => others = []
  | group :: groups, others => ∃ other rest, others = other :: rest ∧
      GroupReordered group other ∧ GroupsReordered groups rest
termination_by structural groups => groups

end

theorem groupsReordered_iff {groups others : List (List (Clause ρ))} :
    GroupsReordered groups others ↔ List.Forall₂ GroupReordered groups others := by
  induction groups generalizing others with
  | nil => rw [GroupsReordered, List.forall₂_nil_left_iff]
  | cons group groups ih =>
    rw [GroupsReordered, List.forall₂_cons_left_iff]
    constructor
    · rintro ⟨first, rest, rfl, hgroup, hgroups⟩
      exact ⟨first, rest, hgroup, ih.1 hgroups, rfl⟩
    · rintro ⟨first, rest, hgroup, hgroups, rfl⟩
      exact ⟨first, rest, rfl, hgroup, ih.2 hgroups⟩

mutual

theorem Clause.reordered_refl : (clause : Clause ρ) → clause.Reordered clause
  | .named _ _ => rfl
  | .optional group => ⟨group, rfl, groupReordered_refl group⟩
  | .many _ => rfl
  | .flatten _ => rfl
  | .oneOf groups => ⟨groups, groups, rfl, groupsReordered_refl groups, .refl groups⟩

theorem groupReordered_refl : (group : List (Clause ρ)) → GroupReordered group group
  | [] => rfl
  | clause :: group => ⟨clause, group, rfl, clause.reordered_refl, groupReordered_refl group⟩

theorem groupsReordered_refl : (groups : List (List (Clause ρ))) → GroupsReordered groups groups
  | [] => rfl
  | group :: groups => ⟨group, groups, rfl, groupReordered_refl group, groupsReordered_refl groups⟩

end

mutual

theorem Clause.Reordered.symm : {clause other : Clause ρ} → clause.Reordered other →
    other.Reordered clause
  | .named _ _, _, rfl => rfl
  | .optional _, _, ⟨_, rfl, h⟩ => ⟨_, rfl, GroupReordered.symm h⟩
  | .many _, _, rfl => rfl
  | .flatten _, _, rfl => rfl
  | .oneOf _, _, ⟨_, _, rfl, h, hperm⟩ => by
    -- The groups are put in order first here, and related first there.
    obtain ⟨inOrder, hrelated, hinOrder⟩ :=
      List.perm_comp_forall₂ hperm.symm (groupsReordered_iff.1 (GroupsReordered.symm h))
    exact ⟨inOrder, _, rfl, groupsReordered_iff.2 hrelated, hinOrder⟩

theorem GroupReordered.symm : {group other : List (Clause ρ)} → GroupReordered group other →
    GroupReordered other group
  | [], _, rfl => rfl
  | _ :: _, _, ⟨_, _, rfl, hclause, hgroup⟩ =>
    ⟨_, _, rfl, Clause.Reordered.symm hclause, GroupReordered.symm hgroup⟩

theorem GroupsReordered.symm : {groups others : List (List (Clause ρ))} →
    GroupsReordered groups others → GroupsReordered others groups
  | [], _, rfl => rfl
  | _ :: _, _, ⟨_, _, rfl, hgroup, hgroups⟩ =>
    ⟨_, _, rfl, GroupReordered.symm hgroup, GroupsReordered.symm hgroups⟩

end

theorem Clause.Reordered.isOptional_eq {clause other : Clause ρ} (h : clause.Reordered other) :
    other.isOptional = clause.isOptional := by
  cases clause with
  | optional => obtain ⟨_, rfl, -⟩ := h; rfl
  | oneOf => obtain ⟨_, _, rfl, -⟩ := h; rfl
  | named | many | flatten => obtain rfl := h; rfl

/-! ### References -/

theorem groupsRefs_eq_flatMap (groups : List (List (Clause ρ))) :
    groupsRefs groups = groups.flatMap groupRefs := by
  induction groups with
  | nil => rfl
  | cons group groups ih => rw [groupsRefs, ih, List.flatMap_cons]

theorem groupsFlattenTargets_eq_flatMap (groups : List (List (Clause ρ))) :
    groupsFlattenTargets groups = groups.flatMap groupFlattenTargets := by
  induction groups with
  | nil => rfl
  | cons group groups ih => rw [groupsFlattenTargets, ih, List.flatMap_cons]

mutual

theorem Clause.Reordered.refs_perm : {clause other : Clause ρ} → clause.Reordered other →
    clause.refs.Perm other.refs
  | .named _ _, _, rfl => .refl _
  | .optional _, _, ⟨_, rfl, h⟩ => GroupReordered.refs_perm h
  | .many _, _, rfl => .refl _
  | .flatten _, _, rfl => .refl _
  | .oneOf groups, _, ⟨inOrder, others, rfl, h, hperm⟩ => by
    refine (GroupsReordered.refs_perm h).trans ?_
    rw [Clause.refs, groupsRefs_eq_flatMap, groupsRefs_eq_flatMap]
    exact hperm.flatMap_right _

theorem GroupReordered.refs_perm : {group other : List (Clause ρ)} → GroupReordered group other →
    (groupRefs group).Perm (groupRefs other)
  | [], _, rfl => .refl _
  | _ :: _, _, ⟨_, _, rfl, hclause, hgroup⟩ =>
    (Clause.Reordered.refs_perm hclause).append (GroupReordered.refs_perm hgroup)

theorem GroupsReordered.refs_perm : {groups others : List (List (Clause ρ))} →
    GroupsReordered groups others → (groupsRefs groups).Perm (groupsRefs others)
  | [], _, rfl => .refl _
  | _ :: _, _, ⟨_, _, rfl, hgroup, hgroups⟩ =>
    (GroupReordered.refs_perm hgroup).append (GroupsReordered.refs_perm hgroups)

end

mutual

theorem Clause.Reordered.flattenTargets_perm : {clause other : Clause ρ} →
    clause.Reordered other → clause.flattenTargets.Perm other.flattenTargets
  | .named _ _, _, rfl => .refl _
  | .optional _, _, ⟨_, rfl, h⟩ => GroupReordered.flattenTargets_perm h
  | .many _, _, rfl => .refl _
  | .flatten _, _, rfl => .refl _
  | .oneOf groups, _, ⟨inOrder, others, rfl, h, hperm⟩ => by
    refine (GroupsReordered.flattenTargets_perm h).trans ?_
    rw [Clause.flattenTargets, groupsFlattenTargets_eq_flatMap, groupsFlattenTargets_eq_flatMap]
    exact hperm.flatMap_right _

theorem GroupReordered.flattenTargets_perm : {group other : List (Clause ρ)} →
    GroupReordered group other → (groupFlattenTargets group).Perm (groupFlattenTargets other)
  | [], _, rfl => .refl _
  | _ :: _, _, ⟨_, _, rfl, hclause, hgroup⟩ =>
    (Clause.Reordered.flattenTargets_perm hclause).append
      (GroupReordered.flattenTargets_perm hgroup)

theorem GroupsReordered.flattenTargets_perm : {groups others : List (List (Clause ρ))} →
    GroupsReordered groups others →
    (groupsFlattenTargets groups).Perm (groupsFlattenTargets others)
  | [], _, rfl => .refl _
  | _ :: _, _, ⟨_, _, rfl, hgroup, hgroups⟩ =>
    (GroupReordered.flattenTargets_perm hgroup).append (GroupsReordered.flattenTargets_perm hgroups)

end

mutual

theorem Clause.Reordered.map (f : ρ → σ) : {clause other : Clause ρ} → clause.Reordered other →
    (clause.map f).Reordered (other.map f)
  | .named _ _, _, rfl => rfl
  | .optional _, _, ⟨_, rfl, h⟩ => ⟨_, rfl, GroupReordered.map f h⟩
  | .many _, _, rfl => rfl
  | .flatten _, _, rfl => rfl
  | .oneOf _, _, ⟨inOrder, others, rfl, h, hperm⟩ =>
    ⟨groupsMap f inOrder, groupsMap f others, rfl, GroupsReordered.map f h, by
      rw [groupsMap_eq_map, groupsMap_eq_map]
      exact hperm.map _⟩

theorem GroupReordered.map (f : ρ → σ) : {group other : List (Clause ρ)} →
    GroupReordered group other → GroupReordered (groupMap f group) (groupMap f other)
  | [], _, rfl => rfl
  | _ :: _, _, ⟨_, _, rfl, hclause, hgroup⟩ =>
    ⟨_, _, rfl, Clause.Reordered.map f hclause, GroupReordered.map f hgroup⟩

theorem GroupsReordered.map (f : ρ → σ) : {groups others : List (List (Clause ρ))} →
    GroupsReordered groups others → GroupsReordered (groupsMap f groups) (groupsMap f others)
  | [], _, rfl => rfl
  | _ :: _, _, ⟨_, _, rfl, hgroup, hgroups⟩ =>
    ⟨_, _, rfl, GroupReordered.map f hgroup, GroupsReordered.map f hgroups⟩

end

/-! ### Bodies and checks -/

/-- A body with its alternatives, or the groups of any of its alternations, in another order. -/
def Shape.Reordered : Shape ρ → Shape ρ → Prop
  | .object clauses, t => ∃ others, t = .object others ∧ GroupReordered clauses others
  | .oneOf alternatives, t => ∃ others, t = .oneOf others ∧ alternatives.Perm others
  | s, t => t = s

/-- A check with its alternatives, or the groups of any of its alternations, in another order. -/
def Check.Reordered : Check ρ → Check ρ → Prop
  | .object clauses, d => ∃ others, d = .object others ∧ GroupReordered clauses others
  | .oneOf alternatives, d => ∃ others, d = .oneOf others ∧ alternatives.Perm others
  | c, d => d = c

theorem Check.reordered_refl (check : Check ρ) : check.Reordered check := by
  cases check with
  | object clauses => exact ⟨clauses, rfl, groupReordered_refl clauses⟩
  | oneOf alternatives => exact ⟨alternatives, rfl, .refl _⟩
  | kind | literal | regex | arrayOf | anything => rfl

namespace Shape.Reordered

variable {shape other : Shape ρ}

theorem symm (h : shape.Reordered other) : other.Reordered shape := by
  cases shape with
  | object => obtain ⟨_, rfl, h⟩ := h; exact ⟨_, rfl, GroupReordered.symm h⟩
  | oneOf => obtain ⟨_, rfl, h⟩ := h; exact ⟨_, rfl, h.symm⟩
  | literal | type | regex | arrayOf | anything => obtain rfl := h; rfl

theorem refs_perm (h : shape.Reordered other) : shape.refs.Perm other.refs := by
  cases shape with
  | object => obtain ⟨_, rfl, h⟩ := h; exact GroupReordered.refs_perm h
  | oneOf => obtain ⟨_, rfl, h⟩ := h; exact h
  | literal | type | regex | arrayOf | anything => obtain rfl := h; exact .refl _

theorem unguardedRefs_perm (h : shape.Reordered other) :
    shape.unguardedRefs.Perm other.unguardedRefs := by
  cases shape with
  | object => obtain ⟨_, rfl, h⟩ := h; exact GroupReordered.flattenTargets_perm h
  | oneOf => obtain ⟨_, rfl, h⟩ := h; exact h
  | literal | type | regex | arrayOf | anything => obtain rfl := h; exact .refl _

/-- The checks of two bodies are in another order if the bodies are. -/
theorem check (h : shape.Reordered other) (E : Engine) (f : ρ → σ) :
    (((shape.check? E).getD .anything).map f).Reordered
      (((other.check? E).getD .anything).map f) := by
  cases shape with
  | object => obtain ⟨_, rfl, h⟩ := h; exact ⟨_, rfl, GroupReordered.map f h⟩
  | oneOf => obtain ⟨_, rfl, h⟩ := h; exact ⟨_, rfl, h.map f⟩
  | literal | type | regex | arrayOf | anything => obtain rfl := h; exact Check.reordered_refl _

end Shape.Reordered

/-! ### Clauses for all members -/

mutual

/-- Whether a clause, or one inside its groups, takes all members that are left. -/
def Clause.hasMany : Clause ρ → Bool
  | .named _ _ => false
  | .optional group => groupHasMany group
  | .many _ => true
  | .flatten _ => false
  | .oneOf groups => groupsHaveMany groups
termination_by structural clause => clause

/-- Whether one of several clauses, or one inside their groups, takes all members. -/
def groupHasMany : List (Clause ρ) → Bool
  | [] => false
  | clause :: group => clause.hasMany || groupHasMany group
termination_by structural group => group

/-- The same of several groups. -/
def groupsHaveMany : List (List (Clause ρ)) → Bool
  | [] => false
  | group :: groups => groupHasMany group || groupsHaveMany groups
termination_by structural groups => groups

end

mutual

theorem Clause.hasMany_map (f : ρ → σ) : (clause : Clause ρ) →
    (clause.map f).hasMany = clause.hasMany
  | .named _ _ => rfl
  | .optional group => groupHasMany_map f group
  | .many _ => rfl
  | .flatten _ => rfl
  | .oneOf groups => groupsHaveMany_map f groups

theorem groupHasMany_map (f : ρ → σ) : (group : List (Clause ρ)) →
    groupHasMany (groupMap f group) = groupHasMany group
  | [] => rfl
  | clause :: group => congrArg₂ (· || ·) (clause.hasMany_map f) (groupHasMany_map f group)

theorem groupsHaveMany_map (f : ρ → σ) : (groups : List (List (Clause ρ))) →
    groupsHaveMany (groupsMap f groups) = groupsHaveMany groups
  | [] => rfl
  | group :: groups => congrArg₂ (· || ·) (groupHasMany_map f group) (groupsHaveMany_map f groups)

end

end JsonPattern
