import JsonPattern.Graph.Compile
import JsonPattern.Proofs.Graph.CycleSearch
import JsonPattern.Proofs.Graph.Visit
import JsonPattern.Proofs.Pattern.Checks

/-!
# Graphs that compile

A graph compiles exactly if everything that the root leads to is well-formed. The search for cycles
leaves a rank of the nodes visited, below their number, that decreases along unguarded references;
`Graph.Compiled` keeps the visit and the rank together, and what a validator does is derived from
them.
-/

namespace JsonPattern

namespace Graph

variable {g : Graph} {E : Engine}

theorem StandsFor.resolved_eq {id target : NodeId} {shape : Shape NodeId}
    (h : g.StandsFor id target shape) : g.resolved id = target := by
  simp [resolved, h.resolve_eq]

theorem StandsFor.shape_eq {id target : NodeId} {shape : Shape NodeId}
    (h : g.StandsFor id target shape) : g.shape id = shape := by
  simp [Graph.shape, h.resolve_eq]

theorem shape_eq_of_get {id : NodeId} {shape : Shape NodeId} (h : g.get id = .ok (.body shape)) :
    g.shape id = shape :=
  StandsFor.shape_eq (ChainEnds.body h)

theorem resolved_eq_of_get {id : NodeId} {shape : Shape NodeId}
    (h : g.get id = .ok (.body shape)) : g.resolved id = id :=
  StandsFor.resolved_eq (ChainEnds.body h)

theorem resolved_resolved (id : NodeId) : g.resolved (g.resolved id) = g.resolved id := by
  cases h : g.resolve id with
  | error fault => simp [resolved, h]
  | ok result =>
    have hstands : g.StandsFor id result.1 result.2 := resolve_eq_ok_iff.1 h
    rw [hstands.resolved_eq, hstands.self.resolved_eq]

theorem shape_resolved (id : NodeId) : g.shape (g.resolved id) = g.shape id := by
  cases h : g.resolve id with
  | error fault => simp [resolved, h]
  | ok result =>
    have hstands : g.StandsFor id result.1 result.2 := resolve_eq_ok_iff.1 h
    rw [hstands.resolved_eq, hstands.shape_eq, hstands.self.shape_eq]

/-- The slot of an id is that of the node that it stands for. -/
theorem slot_comp_resolved (order : List NodeId) :
    g.slot order ∘ g.resolved = g.slot order :=
  funext fun id ↦ congrArg order.idxOf (resolved_resolved id)

/-- The check of a node in the graph, with slots for its references. -/
theorem map_slot_check {id : NodeId} {shape : Shape NodeId} (h : g.get id = .ok (.body shape))
    (order : List NodeId) :
    ((g.table E).check id).map (g.slot order) =
      ((shape.check? E).getD .anything).map (g.slot order) := by
  change ((((g.shape id).check? E).getD .anything).map g.resolved).map (g.slot order) = _
  rw [Check.map_map, slot_comp_resolved, shape_eq_of_get h]

/-- A visit and a rank of the nodes visited that decreases along unguarded references. -/
structure Compiled (g : Graph) (E : Engine) (root : NodeId) (order : List NodeId)
    (rank : NodeId → Nat) : Prop where
  /-- The nodes that the root leads to are visited. -/
  visited : g.Visited E root order
  /-- Ranks are below the number of nodes. -/
  rank_lt : ∀ id ∈ order, rank id < order.length
  /-- The rank decreases where the value is not descended into. -/
  rank_descends : ∀ id ∈ order, ∀ next, g.Unguarded id next → rank next < rank id

namespace Visited

variable {root : NodeId} {order : List NodeId}

/-- The successors of the search for cycles are the unguarded references. -/
theorem mem_unguarded_iff (h : g.Visited E root order) {id next : NodeId} (hid : id ∈ order) :
    next ∈ g.unguarded id ↔ g.Unguarded id next := by
  obtain ⟨shape, hget, -⟩ := h.settled id hid
  simp only [unguarded, shape_eq_of_get hget, List.mem_map]
  constructor
  · rintro ⟨ref, href, rfl⟩
    obtain ⟨target, -, shape', hstands⟩ := h.ref_mem hid hget (shape.unguardedRefs_subset href)
    exact ⟨shape, hget, ref, href, shape', hstands.resolved_eq ▸ hstands⟩
  · rintro ⟨shape', hget', ref, href, shape'', hstands⟩
    obtain rfl : shape = shape' := by simpa [hget] using hget'
    exact ⟨ref, href, hstands.resolved_eq⟩

theorem unguarded_mem (h : g.Visited E root order) {id next : NodeId} (hid : id ∈ order)
    (hnext : g.Unguarded id next) : next ∈ order := by
  obtain ⟨shape, hget, ref, href, shape', hstands⟩ := hnext
  obtain ⟨target, hmem, shape'', hstands'⟩ :=
    h.ref_mem hid hget (shape.unguardedRefs_subset href)
  exact (hstands.unique hstands').1 ▸ hmem

/-- What the search for cycles among the nodes visited yields. -/
theorem searchAll_spec (h : g.Visited E root order) :
    SweepAll g.unguarded order [] (searchAll g.unguarded order.length order) ∧
      SearchedAll g.unguarded order []
        (searchAll g.unguarded order.length order) :=
  JsonPattern.searchAll_spec (fun _ hid _ hnext ↦
    h.unguarded_mem hid ((h.mem_unguarded_iff hid).1 hnext)) le_rfl (List.Subset.refl _)

/-- A node that search steps lead to from a node visited is visited, and is reached without
descending into the value. -/
theorem unguarded_of_meets (h : g.Visited E root order) {id next : NodeId} (hid : id ∈ order)
    (hmeets : Meets g.unguarded id next) :
    next ∈ order ∧ Relation.ReflTransGen g.Unguarded id next := by
  induction hmeets with
  | refl => exact ⟨hid, .refl⟩
  | tail _ hstep ih =>
    have hstep := (h.mem_unguarded_iff ih.1).1 hstep
    exact ⟨h.unguarded_mem ih.1 hstep, ih.2.tail hstep⟩

/-- The node at which the search for cycles stops is on a cycle of unguarded references. -/
theorem cyclic_of_error (h : g.Visited E root order) {id : NodeId}
    (hsearch : searchAll g.unguarded order.length order = .error id) :
    id ∈ order ∧ Relation.TransGen g.Unguarded id id := by
  have hspec := h.searchAll_spec.2
  rw [hsearch] at hspec
  obtain ⟨hcycle, start, hstart, hmeets⟩ := hspec
  have hid := (h.unguarded_of_meets hstart hmeets).1
  obtain ⟨next, hstep, hrest⟩ := Relation.TransGen.head'_iff.1 hcycle
  have hstep := (h.mem_unguarded_iff hid).1 hstep
  exact ⟨hid, .head' hstep (h.unguarded_of_meets (h.unguarded_mem hid hstep) hrest).2⟩

/-- If the search closes its nodes, a rank decreases along unguarded references. -/
theorem exists_rank (h : g.Visited E root order) {done : List NodeId}
    (hsearch : searchAll g.unguarded order.length order = .ok done) :
    ∃ rank, g.Compiled E root order rank := by
  have hspec := h.searchAll_spec.2
  rw [hsearch] at hspec
  obtain ⟨hclosing, hsub, -, hmet⟩ := hspec
  have hdone : done ⊆ order := by
    intro x hx
    rcases hmet x hx with hx | ⟨start, hstart, hmeets⟩
    · simp at hx
    · exact (h.unguarded_of_meets hstart hmeets).1
  refine ⟨fun id ↦ done.reverse.idxOf id, h, ?_, ?_⟩
  · intro id hid
    have hlt := List.idxOf_lt_length_of_mem (List.mem_reverse.2 (hsub hid))
    have hle := (hclosing.nodup.subperm hdone).length_le
    rw [List.length_reverse] at hlt
    omega
  · intro id hid next hnext
    exact (hclosing.rank_lt (hsub hid) ((h.mem_unguarded_iff hid).2 hnext)).2

end Visited

/-- What is behind a validator: the visit, a rank, and the checks in the order of the visit. -/
theorem exists_compiled {root : NodeId} {V : Validator} (h : g.compileWith E root = .ok V) :
    ∃ order rank, g.visit E root = .ok order ∧ g.Compiled E root order rank ∧
      V = ⟨(g.checks E order).toArray, g.slot order root⟩ := by
  unfold compileWith at h
  split at h
  · cases h
  · next order hvisit =>
    split at h
    · cases h
    · next done hsearch =>
      obtain ⟨rank, hcompiled⟩ := (visited_of_visit hvisit).exists_rank hsearch
      exact ⟨order, rank, hvisit, hcompiled, (Except.ok.inj h).symm⟩

namespace Compiled

variable {root : NodeId} {order : List NodeId} {rank : NodeId → Nat}

theorem not_cyclic (h : g.Compiled E root order rank) {id : NodeId} (hid : id ∈ order) :
    ¬ Relation.TransGen g.Unguarded id id := by
  have hlt : ∀ next, Relation.TransGen g.Unguarded id next →
      next ∈ order ∧ rank next < rank id := by
    intro next hnext
    induction hnext with
    | single hstep => exact ⟨h.visited.unguarded_mem hid hstep, h.rank_descends id hid _ hstep⟩
    | tail _ hstep ih =>
      exact ⟨h.visited.unguarded_mem ih.1 hstep,
        (h.rank_descends _ ih.1 _ hstep).trans ih.2⟩
  exact fun hcycle ↦ lt_irrefl _ (hlt id hcycle).2

/-- A graph with a visit and a rank is well-formed. -/
theorem wellFormed (h : g.Compiled E root order rank) : g.WellFormed E root := by
  have hends (id : NodeId) (hreach : g.Reaches root id) :
      ∃ target ∈ order, ∃ shape, g.StandsFor id target shape :=
    h.visited.standsFor_of_reaches hreach
  have hmem {id : NodeId} {shape : Shape NodeId} (hreach : g.Reaches root id)
      (hget : g.get id = .ok (.body shape)) : id ∈ order :=
    h.visited.mem_iff.2 ⟨hreach, shape, hget⟩
  constructor
  case filled =>
    intro id hreach
    obtain ⟨target, -, shape, hstands⟩ := hends id hreach
    exact hstands.exists_get
  case chains_end =>
    intro id hreach
    obtain ⟨target, -, shape, hstands⟩ := hends id hreach
    exact ⟨target, shape, hstands⟩
  case proper =>
    intro id hreach shape hget
    exact h.visited.proper (hmem hreach hget) hget
  case flattenable =>
    intro id hreach clauses hget target htarget
    have htest : g.testFlatten id target = .ok () :=
      h.visited.settled_duties (hmem hreach hget) hget _
        (Shape.test_mem_duties.2 ⟨clauses, rfl, rfl, htarget⟩)
    have hreach' : g.Reaches root target :=
      hreach.tail ⟨_, hget, groupFlattenTargets_subset clauses htarget⟩
    refine flattenable_of_testFlatten htest rank ?_
    intro x next hx hnext
    have ⟨shape, hgetx, _⟩ := hnext
    exact h.rank_descends x (hmem (hreach'.trans hx) hgetx) next hnext
  case acyclic =>
    intro id hreach hcycle
    obtain ⟨next, ⟨shape, hget, -⟩, -⟩ := Relation.TransGen.head'_iff.1 hcycle
    exact h.not_cyclic (hmem hreach hget) hcycle

end Compiled

/-- A well-formed graph compiles. -/
theorem WellFormed.exists_compile {root : NodeId} (h : g.WellFormed E root) :
    ∃ V, g.compileWith E root = .ok V := by
  obtain ⟨order, hvisit⟩ := h.exists_visit
  have hvisited := visited_of_visit hvisit
  unfold compileWith
  simp only [hvisit]
  split
  · next id hsearch =>
    obtain ⟨hid, hcycle⟩ := hvisited.cyclic_of_error hsearch
    exact absurd hcycle (h.acyclic id (hvisited.reached id hid))
  · next done hsearch => exact ⟨_, rfl⟩

end Graph

end JsonPattern
