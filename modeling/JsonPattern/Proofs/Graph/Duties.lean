import JsonPattern.Graph.Visit
import JsonPattern.Proofs.Graph.WellFormed

/-!
# Duties of a node

What a node owes on a visit, read off its body: a node to visit for every reference, a test for
every flatten target, and no report exactly if the body is proper.
-/

namespace JsonPattern

variable {owner : NodeId} {E : Engine}

/-! ### References and flatten targets -/

mutual

theorem Clause.visit_mem_duties {id : NodeId} : (clause : Clause NodeId) →
    (.visit id ∈ clause.duties owner ↔ id ∈ clause.refs)
  | .named _ _ => by simp [Clause.duties, Clause.refs]
  | .optional group => by simpa only [Clause.duties, Clause.refs] using visit_mem_groupDuties group
  | .many _ => by simp [Clause.duties, Clause.refs]
  | .flatten _ => by simp [Clause.duties, Clause.refs]
  | .oneOf groups => by
    have hgroups : .visit id ∈ groupsDuties owner groups ↔ _ := visit_mem_groupsDuties groups
    cases groups with
    | nil => simp [Clause.duties, Clause.refs, groupsRefs]
    | cons group groups => simpa [Clause.duties, Clause.refs] using hgroups

theorem visit_mem_groupDuties {id : NodeId} : (group : List (Clause NodeId)) →
    (.visit id ∈ groupDuties owner group ↔ id ∈ groupRefs group)
  | [] => by simp [groupDuties, groupRefs]
  | clause :: group => by
    have hreport : Duty.visit id ∉
        if clause.isMany && !group.isEmpty then [.report ⟨owner, .misplacedMany⟩] else [] := by
      split <;> simp
    simp only [groupDuties, groupRefs, List.mem_append, hreport, false_or,
      Clause.visit_mem_duties clause, visit_mem_groupDuties group]

theorem visit_mem_groupsDuties {id : NodeId} : (groups : List (List (Clause NodeId))) →
    (.visit id ∈ groupsDuties owner groups ↔ id ∈ groupsRefs groups)
  | [] => by simp [groupsDuties, groupsRefs]
  | group :: groups => by
    simp only [groupsDuties, groupsRefs, List.mem_append, visit_mem_groupDuties group,
      visit_mem_groupsDuties groups]

end

mutual

theorem Clause.test_mem_duties {tester target : NodeId} : (clause : Clause NodeId) →
    (.testFlatten tester target ∈ clause.duties owner ↔
      tester = owner ∧ target ∈ clause.flattenTargets)
  | .named _ _ => by simp [Clause.duties, Clause.flattenTargets]
  | .optional group => by
    simpa only [Clause.duties, Clause.flattenTargets] using test_mem_groupDuties group
  | .many _ => by simp [Clause.duties, Clause.flattenTargets]
  | .flatten _ => by simp [Clause.duties, Clause.flattenTargets]
  | .oneOf groups => by
    have hgroups : .testFlatten tester target ∈ groupsDuties owner groups ↔ _ :=
      test_mem_groupsDuties groups
    cases groups with
    | nil => simp [Clause.duties, Clause.flattenTargets, groupsFlattenTargets]
    | cons group groups => simpa [Clause.duties, Clause.flattenTargets] using hgroups

theorem test_mem_groupDuties {tester target : NodeId} : (group : List (Clause NodeId)) →
    (.testFlatten tester target ∈ groupDuties owner group ↔
      tester = owner ∧ target ∈ groupFlattenTargets group)
  | [] => by simp [groupDuties, groupFlattenTargets]
  | clause :: group => by
    have hreport : Duty.testFlatten tester target ∉
        if clause.isMany && !group.isEmpty then [.report ⟨owner, .misplacedMany⟩] else [] := by
      split <;> simp
    simp only [groupDuties, groupFlattenTargets, List.mem_append, hreport, false_or,
      Clause.test_mem_duties clause, test_mem_groupDuties group, and_or_left]

theorem test_mem_groupsDuties {tester target : NodeId} : (groups : List (List (Clause NodeId))) →
    (.testFlatten tester target ∈ groupsDuties owner groups ↔
      tester = owner ∧ target ∈ groupsFlattenTargets groups)
  | [] => by simp [groupsDuties, groupsFlattenTargets]
  | group :: groups => by
    simp only [groupsDuties, groupsFlattenTargets, List.mem_append, test_mem_groupDuties group,
      test_mem_groupsDuties groups, and_or_left]

end

/-! ### Reports -/

/-- What is asked of the groups in a clause. -/
def Clause.ProperGroups {ρ : Type} : Clause ρ → Prop
  | .optional group => ProperClauses group
  | .oneOf groups => groups ≠ [] ∧ ∀ group ∈ groups, ProperClauses group
  | _ => True

/-- A list of clauses is proper if its own clauses for all members come last and the groups in its
clauses are proper. -/
theorem properClauses_iff {ρ : Type} {clauses : List (Clause ρ)} :
    ProperClauses clauses ↔
      (∀ before value after, clauses = before ++ .many value :: after → after = []) ∧
        ∀ clause ∈ clauses, clause.ProperGroups := by
  constructor
  · intro h
    refine ⟨h.many_last clauses (.self clauses), ?_⟩
    intro clause hmem
    cases clause with
    | optional group =>
      exact ⟨fun list hlist ↦ h.many_last list (.optional hmem hlist),
        fun list hlist ↦ h.groups_ne_nil list (.optional hmem hlist)⟩
    | oneOf groups =>
      refine ⟨h.groups_ne_nil clauses (.self clauses) groups hmem, ?_⟩
      intro group hgroup
      exact ⟨fun list hlist ↦ h.many_last list (.oneOf hmem hgroup hlist),
        fun list hlist ↦ h.groups_ne_nil list (.oneOf hmem hgroup hlist)⟩
    | named | many | flatten => trivial
  · rintro ⟨hlast, hgroups⟩
    constructor
    · intro list hlist
      cases hlist with
      | self => exact hlast
      | optional hmem hlist => exact (hgroups _ hmem).many_last list hlist
      | oneOf hmem hgroup hlist => exact ((hgroups _ hmem).2 _ hgroup).many_last list hlist
    · intro list hlist
      cases hlist with
      | self => exact fun groups hmem ↦ (hgroups _ hmem).1
      | optional hmem hlist => exact (hgroups _ hmem).groups_ne_nil list hlist
      | oneOf hmem hgroup hlist => exact ((hgroups _ hmem).2 _ hgroup).groups_ne_nil list hlist

theorem properClauses_nil {ρ : Type} : ProperClauses ([] : List (Clause ρ)) :=
  properClauses_iff.2 ⟨by simp, by simp⟩

theorem properClauses_cons_iff {ρ : Type} {clause : Clause ρ} {clauses : List (Clause ρ)} :
    ProperClauses (clause :: clauses) ↔
      (clause.isMany → clauses = []) ∧ clause.ProperGroups ∧ ProperClauses clauses := by
  rw [properClauses_iff, properClauses_iff, List.forall_mem_cons]
  constructor
  · rintro ⟨hlast, hclause, hclauses⟩
    refine ⟨?_, hclause, ?_, hclauses⟩
    · intro hmany
      cases clause with
      | many value => exact hlast [] value clauses rfl
      | named | optional | flatten | oneOf => simp [Clause.isMany] at hmany
    · intro before value after h
      exact hlast (clause :: before) value after (by rw [h]; rfl)
  · rintro ⟨hmany, hclause, hlast, hclauses⟩
    refine ⟨?_, hclause, hclauses⟩
    intro before value after h
    cases before with
    | nil =>
      obtain ⟨rfl, rfl⟩ := List.cons.inj h
      exact hmany rfl
    | cons _ before => exact hlast before value after (List.cons.inj h).2

mutual

theorem Clause.report_notMem_duties : (clause : Clause NodeId) →
    ((∀ fault, .report fault ∉ clause.duties owner) ↔ clause.ProperGroups)
  | .named _ _ => by simp [Clause.duties, Clause.ProperGroups]
  | .optional group => by
    simpa only [Clause.duties, Clause.ProperGroups] using report_notMem_groupDuties group
  | .many _ => by simp [Clause.duties, Clause.ProperGroups]
  | .flatten _ => by simp [Clause.duties, Clause.ProperGroups]
  | .oneOf groups => by
    have hgroups := report_notMem_groupsDuties groups
    cases groups with
    | nil => simp [Clause.duties, Clause.ProperGroups]
    | cons group groups => simpa [Clause.duties, Clause.ProperGroups] using hgroups

/-- A list of clauses has nothing to report exactly if it is proper. -/
theorem report_notMem_groupDuties : (group : List (Clause NodeId)) →
    ((∀ fault, .report fault ∉ groupDuties owner group) ↔ ProperClauses group)
  | [] => by simp [groupDuties, properClauses_nil]
  | clause :: group => by
    have hreport : (∀ fault, Duty.report fault ∉
        if clause.isMany && !group.isEmpty then [.report ⟨owner, .misplacedMany⟩] else []) ↔
          (clause.isMany → group = []) := by
      cases clause.isMany <;> cases group <;> simp
    simp only [groupDuties, List.mem_append, not_or, forall_and, hreport,
      Clause.report_notMem_duties clause, report_notMem_groupDuties group, properClauses_cons_iff,
      and_assoc]

theorem report_notMem_groupsDuties : (groups : List (List (Clause NodeId))) →
    ((∀ fault, .report fault ∉ groupsDuties owner groups) ↔ ∀ group ∈ groups, ProperClauses group)
  | [] => by simp [groupsDuties]
  | group :: groups => by
    simp only [groupsDuties, List.mem_append, not_or, forall_and, List.forall_mem_cons,
      report_notMem_groupDuties group, report_notMem_groupsDuties groups]

end

/-! ### Bodies -/

namespace Shape

variable {shape : Shape NodeId}

/-- A node visits the references of its body. -/
theorem visit_mem_duties {id : NodeId} : .visit id ∈ shape.duties owner E ↔ id ∈ shape.refs := by
  cases shape with
  | literal value => simp only [duties, refs]; split <;> simp
  | regex source => simp only [duties, refs]; split <;> simp
  | type | anything => simp [duties, refs]
  | arrayOf element => simp [duties, refs]
  | object clauses => exact visit_mem_groupDuties clauses
  | oneOf alternatives => cases alternatives <;> simp [duties, refs]

/-- A node tests the flatten targets of its body. -/
theorem test_mem_duties {tester target : NodeId} :
    .testFlatten tester target ∈ shape.duties owner E ↔
      ∃ clauses, shape = .object clauses ∧ tester = owner ∧
        target ∈ groupFlattenTargets clauses := by
  cases shape with
  | literal value => simp only [duties]; split <;> simp
  | regex source => simp only [duties]; split <;> simp
  | type | anything | arrayOf => simp [duties]
  | object clauses => simpa [duties] using test_mem_groupDuties clauses
  | oneOf alternatives => cases alternatives <;> simp [duties]

/-- A node has nothing to report exactly if its body is proper. -/
theorem report_notMem_duties :
    (∀ fault, .report fault ∉ shape.duties owner E) ↔ shape.Proper E := by
  cases shape with
  | literal value => cases h : value.isScalar <;> simp [duties, Proper, h]
  | regex source => cases h : E.read source <;> simp [duties, Proper, h]
  | type | anything | arrayOf => simp [duties, Proper]
  | object clauses => exact report_notMem_groupDuties clauses
  | oneOf alternatives => cases alternatives <;> simp [duties, Proper]

end Shape

end JsonPattern
