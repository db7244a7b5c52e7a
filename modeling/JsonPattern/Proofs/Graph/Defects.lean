import JsonPattern.Proofs.Graph.Compile
import JsonPattern.Regex.Search

/-!
# What is wrong where a graph does not compile

`Graph.Broken` and `Graph.Flawed` say what it means that an id shows a defect, one constructor for
each defect that the visit of a graph looks for, stated on the graph and the engine alone: what a
slot holds, what the body of a node is, whether the engine refuses an expression, where a chain of
references leads, and what is uncovered below a flatten target. A visit that fails reports an id
that the root leads to and a defect that this id shows; a visit that succeeds has met none. So a
cycle that never descends into the value, which is searched for only afterwards, is reported only
where nothing else is wrong.

## Main definitions

* `Graph.Broken` : an id has no pattern, or its chain of references goes on for ever.
* `Graph.Flawed` : an id shows a defect that a visit looks for.
* `Graph.Exhibits` : an id shows a defect, or is on a cycle of alternatives and flatten targets.
* `Graph.Founded` : a fault lies in what an id leads to.

## Main results

* `Graph.Settles.founded` : the fault that stops a visit lies in what the root leads to.
* `Graph.Visited.not_flawed` : where a visit succeeds, it has met no defect.
* `Graph.exists_compile_iff_not_exhibits` : a graph compiles if and only if nothing in it shows a
  defect.
* `Graph.fault_exhibited_of_compile` : a compile error is truthful.
-/

namespace JsonPattern

/-! ### What is meant by a defect -/

/-- One of the lists nested in a list of clauses has a defect. -/
inductive Malformed {ρ : Type} (clauses : List (Clause ρ)) : Defect → Prop
  /-- A clause for all members that are left has clauses after it. -/
  | misplacedMany {before after : List (Clause ρ)} {value : ρ}
      (hnested : Nested (before ++ .many value :: after) clauses) (hafter : after ≠ []) :
      Malformed clauses .misplacedMany
  /-- An alternation has no group. -/
  | noGroups {list : List (Clause ρ)} (hnested : Nested list clauses) (hmem : .oneOf [] ∈ list) :
      Malformed clauses .noGroups

namespace Graph

variable (g : Graph) (E : Engine)

/-- An id stands for a node with a body, or for a disjunction one of whose alternatives uncovers
it. -/
inductive Uncovers : NodeId → NodeId → Shape NodeId → Prop
  | self {id target : NodeId} {shape : Shape NodeId} (h : g.StandsFor id target shape) :
      Uncovers id target shape
  | alternative {id disjunction alternative target : NodeId} {alternatives : List NodeId}
      {shape : Shape NodeId} (h : g.StandsFor id disjunction (.oneOf alternatives))
      (hmem : alternative ∈ alternatives) (rest : Uncovers alternative target shape) :
      Uncovers id target shape

/-- An id has no pattern, or begins a chain of references that goes on for ever. -/
inductive Broken : NodeId → Defect → Prop
  /-- The id is beyond the slots of the graph. -/
  | unknownPattern {id : NodeId} (h : g.size ≤ id.index) : Broken id .unknownPattern
  /-- The slot is empty. -/
  | unfilledSlot {id : NodeId} (h : g.slots[id.index]? = some none) : Broken id .unfilledSlot
  /-- The chain of references that begins at the id goes on for ever. -/
  | endlessReference {id : NodeId}
      (h : ∀ node, Relation.ReflTransGen g.Links id node → ∃ next, g.Links node next) :
      Broken id .endlessReference

/-- An id shows a defect that a visit looks for. -/
inductive Flawed : NodeId → Defect → Prop
  /-- The id is broken. -/
  | broken {id : NodeId} {defect : Defect} (h : g.Broken id defect) : Flawed id defect
  /-- The node is a literal that is an array or an object. -/
  | nonScalarLiteral {id : NodeId} {value : Json} (h : g.get id = .ok (.body (.literal value)))
      (hvalue : value.isScalar = false) : Flawed id (.nonScalarLiteral value)
  /-- The node is a regular expression whose source the engine refuses. -/
  | invalidRegex {id : NodeId} {source : String} {explanation : Option String}
      (h : g.get id = .ok (.body (.regex source))) (hsource : E.read source = .error explanation) :
      Flawed id (.invalidRegex source explanation)
  /-- The node is a disjunction without alternatives. -/
  | noAlternatives {id : NodeId} (h : g.get id = .ok (.body (.oneOf []))) :
      Flawed id .noAlternatives
  /-- The node is an object with a list of clauses that has a defect. -/
  | clauses {id : NodeId} {clauses : List (Clause NodeId)} {defect : Defect}
      (h : g.get id = .ok (.body (.object clauses))) (hclauses : Malformed clauses defect) :
      Flawed id defect
  /-- The node is an object that flattens what uncovers neither an object nor a disjunction. -/
  | invalidFlatten {id target node : NodeId} {clauses : List (Clause NodeId)}
      {shape : Shape NodeId} (h : g.get id = .ok (.body (.object clauses)))
      (htarget : target ∈ groupFlattenTargets clauses) (huncovers : g.Uncovers target node shape)
      (hobject : ∀ clauses, shape ≠ .object clauses)
      (honeOf : ∀ alternatives, shape ≠ .oneOf alternatives) : Flawed id (.invalidFlatten node)

/-- An id shows a defect: one that a visit looks for, or it is on a cycle of alternatives and
flatten targets. -/
inductive Exhibits : NodeId → Defect → Prop
  | flaw {id : NodeId} {defect : Defect} (h : g.Flawed E id defect) : Exhibits id defect
  | cycle {id : NodeId} (h : Relation.TransGen g.Unguarded id id) : Exhibits id .unguardedCycle

/-- A fault lies in what an id leads to: its node is the id, or is mentioned by a node that the id
leads to, and shows the defect. -/
structure Founded (id : NodeId) (fault : Fault) : Prop where
  /-- The id leads to the node. -/
  reaches : g.Reaches id fault.node
  /-- The node shows the defect. -/
  flawed : g.Flawed E fault.node fault.defect

variable {g E}

theorem Flawed.ne_unguardedCycle {id : NodeId} {defect : Defect} (h : g.Flawed E id defect) :
    defect ≠ .unguardedCycle := by
  cases h with
  | broken hbroken => cases hbroken <;> simp
  | clauses _ hclauses => cases hclauses <;> simp
  | _ => simp

theorem Exhibits.kind_ne_slotAlreadyFilled {id : NodeId} {defect : Defect}
    (h : g.Exhibits E id defect) : defect.kind ≠ .slotAlreadyFilled := by
  cases h with
  | cycle => simp [Defect.kind]
  | flaw h =>
    cases h with
    | broken hbroken => cases hbroken <;> simp [Defect.kind]
    | clauses _ hclauses => cases hclauses <;> simp [Defect.kind]
    | _ => simp [Defect.kind]

theorem Founded.of_reaches {id next : NodeId} {fault : Fault} (h : g.Founded E next fault)
    (hreach : g.Reaches id next) : g.Founded E id fault :=
  ⟨hreach.trans h.reaches, h.flawed⟩

end Graph

/-! ### Reports -/

namespace Malformed

variable {ρ : Type} {clauses group : List (Clause ρ)} {groups : List (List (Clause ρ))}
  {defect : Defect}

theorem of_optional (h : Malformed group defect) (hmem : .optional group ∈ clauses) :
    Malformed clauses defect := by
  cases h with
  | misplacedMany hnested hafter => exact .misplacedMany (.optional hmem hnested) hafter
  | noGroups hnested hgroups => exact .noGroups (.optional hmem hnested) hgroups

theorem of_oneOf (h : Malformed group defect) (hgroup : group ∈ groups)
    (hmem : .oneOf groups ∈ clauses) : Malformed clauses defect := by
  cases h with
  | misplacedMany hnested hafter => exact .misplacedMany (.oneOf hmem hgroup hnested) hafter
  | noGroups hnested hgroups => exact .noGroups (.oneOf hmem hgroup hnested) hgroups

/-- A proper list has no defect. -/
theorem not_proper (h : Malformed clauses defect) : ¬ ProperClauses clauses := by
  intro hproper
  cases h with
  | misplacedMany hnested hafter => exact hafter (hproper.many_last _ hnested _ _ _ rfl)
  | noGroups hnested hmem => exact hproper.groups_ne_nil _ hnested [] hmem rfl

end Malformed

section Reports

variable {owner : NodeId} {fault : Fault}

mutual

theorem Clause.malformed_of_report : (clause : Clause NodeId) → (outer : List (Clause NodeId)) →
    clause ∈ outer → .report fault ∈ clause.duties owner →
    fault.node = owner ∧ Malformed outer fault.defect
  | .named _ _, _, _, h => by simp [Clause.duties] at h
  | .optional group, _, hmem, h =>
    (malformed_of_report_group [] group h).imp id fun hgroup ↦ hgroup.of_optional hmem
  | .many _, _, _, h => by simp [Clause.duties] at h
  | .flatten _, _, _, h => by simp [Clause.duties] at h
  | .oneOf groups, outer, hmem, h => by
    rw [Clause.duties] at h
    split at h
    · next hempty =>
      obtain rfl := List.isEmpty_iff.1 hempty
      cases List.mem_singleton.1 h
      exact ⟨rfl, .noGroups (.self outer) hmem⟩
    · obtain ⟨hnode, group, hgroup, hdefect⟩ := malformed_of_report_groups groups h
      exact ⟨hnode, hdefect.of_oneOf hgroup hmem⟩

/-- What a list of clauses reports is shown by its owner: a list nested in it has the defect. -/
theorem malformed_of_report_group : (before group : List (Clause NodeId)) →
    .report fault ∈ groupDuties owner group →
    fault.node = owner ∧ Malformed (before ++ group) fault.defect
  | _, [], h => by simp [groupDuties] at h
  | before, clause :: group, h => by
    rw [groupDuties] at h
    rcases List.mem_append.1 h with h | h
    · rcases List.mem_append.1 h with h | h
      · split at h
        · next hmany =>
          cases List.mem_singleton.1 h
          obtain ⟨hmany, hgroup⟩ := Bool.and_eq_true_iff.1 hmany
          cases clause with
          | many value =>
            exact ⟨rfl, .misplacedMany (.self _) fun hnil ↦ by simp [hnil] at hgroup⟩
          | named | optional | flatten | oneOf => cases hmany
        · exact absurd h List.not_mem_nil
      · exact clause.malformed_of_report _ (List.mem_append_right _ List.mem_cons_self) h
    · have hgroup := malformed_of_report_group (before ++ [clause]) group h
      rwa [List.append_assoc] at hgroup

theorem malformed_of_report_groups : (groups : List (List (Clause NodeId))) →
    .report fault ∈ groupsDuties owner groups →
    fault.node = owner ∧ ∃ group ∈ groups, Malformed group fault.defect
  | [], h => by simp [groupsDuties] at h
  | group :: groups, h => by
    rcases List.mem_append.1 h with h | h
    · obtain ⟨hnode, hdefect⟩ := malformed_of_report_group [] group h
      exact ⟨hnode, group, List.mem_cons_self, hdefect⟩
    · obtain ⟨hnode, other, hother, hdefect⟩ := malformed_of_report_groups groups h
      exact ⟨hnode, other, List.mem_cons_of_mem _ hother, hdefect⟩

end

end Reports

namespace Graph

variable {g : Graph} {E : Engine} {owner id target : NodeId} {fault : Fault} {shape : Shape NodeId}

/-- What a node reports, it shows. -/
theorem flawed_of_report (hget : g.get owner = .ok (.body shape))
    (h : .report fault ∈ shape.duties owner E) :
    fault.node = owner ∧ g.Flawed E fault.node fault.defect := by
  cases shape with
  | literal value =>
    rw [Shape.duties] at h
    split at h
    · exact absurd h List.not_mem_nil
    · next hvalue =>
      cases List.mem_singleton.1 h
      exact ⟨rfl, .nonScalarLiteral hget (Bool.eq_false_iff.2 hvalue)⟩
  | regex source =>
    rw [Shape.duties] at h
    split at h
    · exact absurd h List.not_mem_nil
    · next hsource =>
      cases List.mem_singleton.1 h
      exact ⟨rfl, .invalidRegex hget hsource⟩
  | object clauses =>
    obtain ⟨rfl, hclauses⟩ := malformed_of_report_group [] clauses h
    exact ⟨rfl, .clauses hget hclauses⟩
  | oneOf alternatives =>
    rw [Shape.duties] at h
    split at h
    · next hempty =>
      obtain rfl := List.isEmpty_iff.1 hempty
      cases List.mem_singleton.1 h
      exact ⟨rfl, .noAlternatives hget⟩
    · simp at h
  | type | arrayOf | anything => simp [Shape.duties] at h

/-! ### Chains of references -/

theorem broken_of_get (h : g.get id = .error fault) :
    fault.node = id ∧ g.Broken fault.node fault.defect := by
  rw [get] at h
  split at h
  · next hnone =>
    cases h
    exact ⟨rfl, .unknownPattern (Array.getElem?_eq_none_iff.1 hnone)⟩
  · next hempty =>
    cases h
    exact ⟨rfl, .unfilledSlot hempty⟩
  · cases h

theorem ChainEnds.broken (h : g.ChainEnds id (.error fault)) :
    g.Reaches id fault.node ∧ g.Broken fault.node fault.defect := by
  generalize he : (Except.error fault : Except Fault (NodeId × Shape NodeId)) = outcome at h
  induction h with
  | body => cases he
  | fault h =>
    cases he
    obtain ⟨rfl, hbroken⟩ := broken_of_get h
    exact ⟨.refl, hbroken⟩
  | cyclic h _ ih =>
    obtain ⟨hreach, hbroken⟩ := ih he
    exact ⟨.head ⟨_, h, List.mem_singleton_self _⟩ hreach, hbroken⟩

/-- A chain of references that ends has a last node. -/
theorem ChainEnds.exists_last {outcome : Except Fault (NodeId × Shape NodeId)}
    (h : g.ChainEnds id outcome) :
    ∃ node, Relation.ReflTransGen g.Links id node ∧ ∀ next, ¬ g.Links node next := by
  induction h with
  | body hget | fault hget =>
    refine ⟨_, .refl, fun next hlink ↦ ?_⟩
    rw [Links, hget] at hlink
    cases hlink
  | cyclic hget _ ih =>
    obtain ⟨node, hlinks, hlast⟩ := ih
    exact ⟨node, .head hget hlinks, hlast⟩

/-- A chain of references that does not end goes on for ever. -/
theorem exists_link_of_not_chainEnds (h : ¬ ∃ outcome, g.ChainEnds id outcome) {node : NodeId}
    (hlinks : Relation.ReflTransGen g.Links id node) : ∃ next, g.Links node next := by
  have hnode : ¬ ∃ outcome, g.ChainEnds node outcome := by
    induction hlinks with
    | refl => exact h
    | tail _ hlink ih => exact fun ⟨outcome, hends⟩ ↦ ih ⟨outcome, .cyclic hlink hends⟩
  cases hget : g.get node with
  | error fault => exact absurd ⟨_, .fault hget⟩ hnode
  | ok pattern =>
    cases pattern with
    | body shape => exact absurd ⟨_, .body hget⟩ hnode
    | cyclic next => exact ⟨next, hget⟩

/-- Where a chain of references leads to no body, a broken id lies on it. -/
theorem broken_of_resolve (h : g.resolve id = .error fault) :
    g.Reaches id fault.node ∧ g.Broken fault.node fault.defect := by
  by_cases hends : ∃ outcome, g.ChainEnds id outcome
  · obtain ⟨outcome, hends⟩ := hends
    obtain rfl : outcome = .error fault := hends.resolve_eq.symm.trans h
    exact hends.broken
  · rw [resolve_eq_endless hends] at h
    cases h
    exact ⟨.refl, .endlessReference fun _ ↦ exists_link_of_not_chainEnds hends⟩

theorem founded_of_resolve (h : g.resolve id = .error fault) : g.Founded E id fault :=
  ⟨(broken_of_resolve h).1, .broken (broken_of_resolve h).2⟩

/-! ### Flatten targets -/

/-- A test that fails has met a fault below one of its targets, or uncovered there what is neither
an object nor a disjunction. -/
theorem FlattenTest.exists_target {pending seen : List NodeId} {result : Except Fault Unit}
    (h : g.FlattenTest owner pending seen result) (herror : result = .error fault) :
    ∃ target ∈ pending, g.Founded E target fault ∨ ∃ node shape,
      fault = ⟨owner, .invalidFlatten node⟩ ∧ g.Uncovers target node shape ∧
        (∀ clauses, shape ≠ .object clauses) ∧ ∀ alternatives, shape ≠ .oneOf alternatives := by
  induction h with
  | done => cases herror
  | astray h =>
    cases herror
    exact ⟨_, List.mem_cons_self, .inl (founded_of_resolve h)⟩
  | again _ _ _ ih | object _ _ _ ih =>
    obtain ⟨target, htarget, hfault⟩ := ih herror
    exact ⟨target, List.mem_cons_of_mem _ htarget, hfault⟩
  | @oneOf id disjunction alternatives pending seen result h _ _ ih =>
    obtain ⟨target, htarget, hfault⟩ := ih herror
    rcases List.mem_append.1 htarget with htarget | htarget
    · have hmem := List.mem_reverse.1 htarget
      refine ⟨id, List.mem_cons_self, hfault.imp (fun hfounded ↦ ?_) ?_⟩
      · exact hfounded.of_reaches (h.reaches.tail ⟨_, h.get_target, hmem⟩)
      · rintro ⟨node, shape, he, huncovers, hother⟩
        exact ⟨node, shape, he, .alternative h hmem huncovers, hother⟩
    · exact ⟨target, List.mem_cons_of_mem _ htarget, hfault⟩
  | other h _ hobject honeOf =>
    cases herror
    exact ⟨_, List.mem_cons_self, .inr ⟨_, _, rfl, .self h, hobject, honeOf⟩⟩

/-- A flatten target that is refused gives its owner away, or what it leads to. -/
theorem founded_of_testFlatten {clauses : List (Clause NodeId)}
    (hget : g.get owner = .ok (.body (.object clauses)))
    (htarget : target ∈ groupFlattenTargets clauses)
    (h : g.testFlatten owner target = .error fault) : g.Founded E owner fault := by
  obtain ⟨only, honly, hfault⟩ := (flattenTest_testFlatten target).exists_target (E := E) h
  obtain rfl := List.mem_singleton.1 honly
  rcases hfault with hfounded | ⟨node, shape, rfl, huncovers, hobject, honeOf⟩
  · exact hfounded.of_reaches (.single ⟨_, hget, groupFlattenTargets_subset clauses htarget⟩)
  · exact ⟨.refl, .invalidFlatten hget htarget huncovers hobject honeOf⟩

theorem Uncovers.get_target (h : g.Uncovers id target shape) :
    g.get target = .ok (.body shape) := by
  induction h with
  | self h => exact h.get_target
  | alternative _ _ _ ih => exact ih

/-- What is uncovered below a node stays among nodes that open into each other. -/
theorem Uncovers.mem_of_closed {nodes : List NodeId} (hclosed : ∀ id ∈ nodes, g.OpensInto nodes id)
    (h : g.Uncovers id target shape)
    (hid : ∃ node ∈ nodes, ∃ shape, g.StandsFor id node shape) : target ∈ nodes := by
  induction h with
  | self h =>
    obtain ⟨node, hnode, shape, hstands⟩ := hid
    exact (h.unique hstands).1 ▸ hnode
  | alternative h hmem _ ih =>
    obtain ⟨node, hnode, shape, hstands⟩ := hid
    obtain ⟨rfl, rfl⟩ := hstands.unique h
    rcases hclosed node hnode with ⟨clauses, hget⟩ | ⟨alternatives, hget, halternatives⟩
    · cases ((h.congr_shape hget).unique h).2
    · cases ((h.congr_shape hget).unique h).2
      exact ih (halternatives _ hmem)

/-- A target that passes the test uncovers objects and disjunctions only. -/
theorem Uncovers.object_or_oneOf {node : NodeId} (h : g.Uncovers target node shape)
    (htest : g.testFlatten owner target = .ok ()) :
    (∃ clauses, shape = .object clauses) ∨ ∃ alternatives, shape = .oneOf alternatives := by
  obtain ⟨nodes, -, htarget, hnodes⟩ := (flattenTest_testFlatten target).exists_nodes htest
  have hclosed (id : NodeId) (hid : id ∈ nodes) : g.OpensInto nodes id :=
    (hnodes id hid).resolve_left List.not_mem_nil
  have hnode := h.mem_of_closed hclosed (htarget target List.mem_cons_self)
  have hget := h.get_target
  rcases hclosed node hnode with ⟨clauses, hget'⟩ | ⟨alternatives, hget', -⟩
  · rw [hget] at hget'
    cases hget'
    exact .inl ⟨clauses, rfl⟩
  · rw [hget] at hget'
    cases hget'
    exact .inr ⟨alternatives, rfl⟩

/-! ### Visits -/

/-- A duty is one that arises in what a root leads to. -/
def Owed (g : Graph) (E : Engine) (root : NodeId) : Duty → Prop
  | .visit id => g.Reaches root id
  | .testFlatten owner target => g.Reaches root owner ∧
      ∃ clauses, g.get owner = .ok (.body (.object clauses)) ∧
        target ∈ groupFlattenTargets clauses
  | .report fault => g.Founded E root fault

variable {root : NodeId}

/-- The duties of a node arise in what the root leads to, if the node does. -/
theorem owed_of_mem_duties (hreach : g.Reaches root owner) (hget : g.get owner = .ok (.body shape))
    {duty : Duty} (hduty : duty ∈ shape.duties owner E) : g.Owed E root duty := by
  cases duty with
  | visit id => exact hreach.tail ⟨_, hget, Shape.visit_mem_duties.1 hduty⟩
  | testFlatten tester target =>
    obtain ⟨clauses, rfl, rfl, htarget⟩ := Shape.test_mem_duties.1 hduty
    exact ⟨hreach, clauses, hget, htarget⟩
  | report fault =>
    obtain ⟨hnode, hflawed⟩ := flawed_of_report hget hduty
    exact ⟨hnode ▸ hreach, hflawed⟩

/-- One fault stops a visit, and it lies in what the root leads to. -/
theorem Settles.founded {pending : List Duty} {seen : List NodeId}
    {result : Except Fault (List NodeId)} (h : g.Settles E pending seen result)
    (herror : result = .error fault) (hpending : ∀ duty ∈ pending, g.Owed E root duty) :
    g.Founded E root fault := by
  induction h with
  | done => cases herror
  | report =>
    cases herror
    exact hpending _ List.mem_cons_self
  | refused h =>
    cases herror
    obtain ⟨hreach, clauses, hget, htarget⟩ := hpending _ List.mem_cons_self
    exact (founded_of_testFlatten hget htarget h).of_reaches hreach
  | astray h =>
    cases herror
    have hreach : g.Reaches root _ := hpending _ List.mem_cons_self
    exact (founded_of_resolve h).of_reaches hreach
  | tested _ _ ih | again _ _ _ ih =>
    exact ih herror fun duty hduty ↦ hpending duty (List.mem_cons_of_mem _ hduty)
  | enter h _ _ ih =>
    refine ih herror fun duty hduty ↦ ?_
    rcases List.mem_append.1 hduty with hduty | hduty
    · have hreach : g.Reaches root _ := hpending _ List.mem_cons_self
      exact owed_of_mem_duties (hreach.trans h.reaches) h.get_target hduty
    · exact hpending duty (List.mem_cons_of_mem _ hduty)

theorem founded_of_visit (h : g.visit E root = .error fault) : g.Founded E root fault := by
  have hroot : g.Owed E root (.visit root) := Relation.ReflTransGen.refl
  exact (settles_visit root).founded h (List.forall_mem_singleton.2 hroot)

/-- An id that stands for a node is not broken. -/
theorem StandsFor.not_broken (h : g.StandsFor id target shape) {defect : Defect} :
    ¬ g.Broken id defect := by
  obtain ⟨pattern, hpattern⟩ := h.exists_get
  intro hbroken
  cases hbroken with
  | unknownPattern hindex => exact absurd (index_lt_of_get hpattern) (Nat.not_lt.2 hindex)
  | unfilledSlot hempty =>
    rw [get, hempty] at hpattern
    cases hpattern
  | endlessReference hendless =>
    obtain ⟨node, hlinks, hlast⟩ := ChainEnds.exists_last h
    obtain ⟨next, hlink⟩ := hendless node hlinks
    exact hlast next hlink

/-- Where a visit succeeds, nothing that the root leads to has a defect that a visit looks for. -/
theorem Visited.not_flawed {order : List NodeId} (h : g.Visited E root order)
    (hreach : g.Reaches root id) {defect : Defect} : ¬ g.Flawed E id defect := by
  intro hflawed
  obtain ⟨target, -, shape, hstands⟩ := h.standsFor_of_reaches hreach
  have hmem {shape : Shape NodeId} (hget : g.get id = .ok (.body shape)) : id ∈ order :=
    h.mem_iff.2 ⟨hreach, shape, hget⟩
  cases hflawed with
  | broken hbroken => exact hstands.not_broken hbroken
  | nonScalarLiteral hget hvalue =>
    have hscalar : _ = true := h.proper (hmem hget) hget
    exact Bool.false_ne_true (hvalue.symm.trans hscalar)
  | invalidRegex hget hsource =>
    obtain ⟨matcher, hread⟩ := h.proper (hmem hget) hget
    rw [hsource] at hread
    cases hread
  | noAlternatives hget => exact h.proper (hmem hget) hget rfl
  | clauses hget hclauses => exact hclauses.not_proper (h.proper (hmem hget) hget)
  | invalidFlatten hget htarget huncovers hobject honeOf =>
    have htest : g.testFlatten id _ = .ok () :=
      h.settled_duties (hmem hget) hget _ (Shape.test_mem_duties.2 ⟨_, rfl, rfl, htarget⟩)
    rcases huncovers.object_or_oneOf htest with ⟨clauses, he⟩ | ⟨alternatives, he⟩
    · exact hobject clauses he
    · exact honeOf alternatives he

/-! ### Compile errors -/

/-- The node of a compile error is one that the root leads to, and shows the defect. -/
theorem exhibits_of_compile (h : g.compileWith E root = .error fault) :
    g.Reaches root fault.node ∧ g.Exhibits E fault.node fault.defect := by
  unfold compileWith at h
  split at h
  · next hvisit =>
    cases h
    have hfounded := founded_of_visit hvisit
    exact ⟨hfounded.reaches, .flaw hfounded.flawed⟩
  · next order hvisit =>
    split at h
    · next id hsearch =>
      cases h
      have hvisited := visited_of_visit hvisit
      obtain ⟨hid, hcycle⟩ := hvisited.cyclic_of_error hsearch
      exact ⟨hvisited.reached id hid, .cycle hcycle⟩
    · cases h

/-- A cycle is reported only after the visit has succeeded. -/
theorem exists_visited_of_unguardedCycle (h : g.compileWith E root = .error fault)
    (hcycle : fault.defect = .unguardedCycle) : ∃ order, g.Visited E root order := by
  unfold compileWith at h
  split at h
  · next hvisit =>
    cases h
    exact absurd hcycle (founded_of_visit hvisit).flawed.ne_unguardedCycle
  · next order hvisit => exact ⟨order, visited_of_visit hvisit⟩

/-- A graph compiles exactly if nothing that the root leads to shows a defect. -/
theorem exists_compile_iff_not_exhibits : (∃ V, g.compileWith E root = .ok V) ↔
    ∀ id defect, g.Reaches root id → ¬ g.Exhibits E id defect := by
  constructor
  · rintro ⟨V, hcompile⟩ id defect hreach hexhibits
    obtain ⟨order, rank, -, hcompiled, -⟩ := exists_compiled hcompile
    cases hexhibits with
    | flaw hflawed => exact hcompiled.visited.not_flawed hreach hflawed
    | cycle hcycle => exact hcompiled.wellFormed.acyclic id hreach hcycle
  · intro hnone
    cases hcompile : g.compileWith E root with
    | ok V => exact ⟨V, rfl⟩
    | error fault =>
      obtain ⟨hreach, hexhibits⟩ := exhibits_of_compile hcompile
      exact absurd hexhibits (hnone fault.node fault.defect hreach)

/-- A compile error is truthful. It carries an id that is the root or is mentioned by a node that
the root leads to, and this id shows the defect. A cycle is reported only where nothing that the
root leads to has any other defect, and no node is ever said to be filled already. -/
theorem fault_exhibited_of_compile (h : g.compileWith E root = .error fault) :
    (fault.node = root ∨ ∃ node, g.Reaches root node ∧ g.Mentions node fault.node) ∧
    g.Exhibits E fault.node fault.defect ∧
    (fault.defect = .unguardedCycle → ∀ id defect, g.Reaches root id → g.Exhibits E id defect →
      defect = .unguardedCycle) ∧
    fault.record.node = some fault.node ∧ fault.record.kind ≠ .slotAlreadyFilled := by
  obtain ⟨hreach, hexhibits⟩ := exhibits_of_compile h
  refine ⟨(Relation.ReflTransGen.cases_tail_iff ..).1 hreach, hexhibits, ?_, rfl,
    hexhibits.kind_ne_slotAlreadyFilled⟩
  intro hcycle id defect hid hdefect
  obtain ⟨order, hvisited⟩ := exists_visited_of_unguardedCycle h hcycle
  cases hdefect with
  | flaw hflawed => exact absurd hflawed (hvisited.not_flawed hid)
  | cycle => rfl

/-- Leaves with a number, or inner nodes with a number and the members of either again. -/
def entangled : Graph :=
  ⟨#[some (.body (.oneOf [⟨1⟩, ⟨2⟩])), some (.body (.object [.named "leaf" ⟨3⟩])),
    some (.body (.object [.named "inner" ⟨3⟩, .flatten ⟨4⟩])), some (.body (.type .integer)),
    some (.cyclic ⟨0⟩)]⟩

/-- The same, but a leaf is the bare number. -/
def bareLeaves : Graph :=
  ⟨#[some (.body (.oneOf [⟨1⟩, ⟨2⟩])), some (.body (.type .integer)),
    some (.body (.object [.named "inner" ⟨1⟩, .flatten ⟨3⟩])), some (.cyclic ⟨0⟩)]⟩

/-- Flattening leads back to the disjunction: it is on a cycle, and nothing else is wrong. Bare
numbers cannot be flattened, and this is found before a cycle is searched for. -/
theorem fault_exhibited_entangled :
    (entangled.compileWith Regex.engine ⟨0⟩ = .error ⟨⟨0⟩, .unguardedCycle⟩ ∧
      entangled.Exhibits Regex.engine ⟨0⟩ .unguardedCycle ∧
      ∀ id defect, entangled.Reaches ⟨0⟩ id → entangled.Exhibits Regex.engine id defect →
        defect = .unguardedCycle) ∧
    bareLeaves.compileWith Regex.engine ⟨0⟩ = .error ⟨⟨2⟩, .invalidFlatten ⟨1⟩⟩ ∧
      bareLeaves.Exhibits Regex.engine ⟨2⟩ (.invalidFlatten ⟨1⟩) := by
  have hentangled : entangled.compileWith Regex.engine ⟨0⟩ = .error ⟨⟨0⟩, .unguardedCycle⟩ := rfl
  have hbare : bareLeaves.compileWith Regex.engine ⟨0⟩ = .error ⟨⟨2⟩, .invalidFlatten ⟨1⟩⟩ := rfl
  obtain ⟨-, hexhibits, honly, -⟩ := fault_exhibited_of_compile hentangled
  exact ⟨⟨hentangled, hexhibits, honly rfl⟩, hbare, (fault_exhibited_of_compile hbare).2.1⟩

end Graph

end JsonPattern
