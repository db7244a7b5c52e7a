import JsonPattern.Proofs.Graph.Duties

/-!
# The test of flatten targets

The test keeps a list of pending targets and a list of nodes known to be good. `Graph.FlattenTest`
is its run without a budget. A run that passes has collected nodes that are objects or
disjunctions, closed under alternatives; where no cycle runs through alternatives, the targets are
therefore objects or disjunctions of objects. Conversely such targets pass.
-/

namespace JsonPattern

namespace Graph

variable (g : Graph) (owner : NodeId)

/-- The run of the test on pending targets, when some nodes are known to be good. -/
inductive FlattenTest : List NodeId → List NodeId → Except Fault Unit → Prop
  | done (seen : List NodeId) : FlattenTest [] seen (.ok ())
  | astray {id : NodeId} {pending seen : List NodeId} {fault : Fault}
      (h : g.resolve id = .error fault) : FlattenTest (id :: pending) seen (.error fault)
  | again {id target : NodeId} {shape : Shape NodeId} {pending seen : List NodeId}
      {result : Except Fault Unit} (h : g.StandsFor id target shape) (hmem : target ∈ seen)
      (rest : FlattenTest pending seen result) : FlattenTest (id :: pending) seen result
  | object {id target : NodeId} {clauses : List (Clause NodeId)} {pending seen : List NodeId}
      {result : Except Fault Unit} (h : g.StandsFor id target (.object clauses))
      (hnew : target ∉ seen) (rest : FlattenTest pending (target :: seen) result) :
      FlattenTest (id :: pending) seen result
  | oneOf {id target : NodeId} {alternatives pending seen : List NodeId}
      {result : Except Fault Unit} (h : g.StandsFor id target (.oneOf alternatives))
      (hnew : target ∉ seen)
      (rest : FlattenTest (alternatives.reverse ++ pending) (target :: seen) result) :
      FlattenTest (id :: pending) seen result
  | other {id target : NodeId} {shape : Shape NodeId} {pending seen : List NodeId}
      (h : g.StandsFor id target shape) (hnew : target ∉ seen)
      (hobject : ∀ clauses, shape ≠ .object clauses)
      (honeOf : ∀ alternatives, shape ≠ .oneOf alternatives) :
      FlattenTest (id :: pending) seen (.error ⟨owner, .invalidFlatten target⟩)

variable {g owner}

/-- The budget of the test is enough: every disjunction that is opened is a node not seen before,
so the nodes seen make up for what is spent. -/
theorem flattenTest_testTargets {budget : Nat} {pending seen : List NodeId} (hnodup : seen.Nodup)
    (hseen : ∀ id ∈ seen, id.index < g.size) (hbudget : g.size < budget + seen.length) :
    g.FlattenTest owner pending seen (g.testTargets owner budget pending seen) := by
  induction budget generalizing pending seen with
  | zero =>
    have := NodeId.length_le_of_nodup hnodup hseen
    omega
  | succ budget ih =>
    change g.FlattenTest owner pending seen
      (g.testPending owner (g.testTargets owner budget) pending seen)
    induction pending generalizing seen with
    | nil => exact .done seen
    | cons id pending ihp =>
      simp only [testPending]
      split
      · next fault h => exact .astray h
      · next target shape h =>
        have h := resolve_eq_ok_iff.1 h
        have hvalid : ∀ x ∈ target :: seen, x.index < g.size :=
          List.forall_mem_cons.2 ⟨h.index_lt, hseen⟩
        split
        · next hmem => exact .again h hmem (ihp hnodup hseen hbudget)
        · next hnew =>
          have hnodup' : (target :: seen).Nodup := List.nodup_cons.2 ⟨hnew, hnodup⟩
          split
          · exact .object h hnew (ihp hnodup' hvalid (by simp; omega))
          · exact .oneOf h hnew (ih hnodup' hvalid (by simp; omega))
          · next hobject honeOf => exact .other h hnew hobject honeOf

theorem flattenTest_testFlatten (target : NodeId) :
    g.FlattenTest owner [target] [] (g.testFlatten owner target) :=
  flattenTest_testTargets List.nodup_nil (by simp) (by simp)

/-- A run has one result. -/
theorem FlattenTest.unique {pending seen : List NodeId} {result result' : Except Fault Unit}
    (h : g.FlattenTest owner pending seen result) (h' : g.FlattenTest owner pending seen result') :
    result = result' := by
  induction h with
  | done => cases h'; rfl
  | astray h =>
    cases h' with
    | astray k => rw [h] at k; cases k; rfl
    | again k | object k | oneOf k | other k => rw [k.resolve_eq] at h; cases h
  | again h hmem rest ih =>
    cases h' with
    | astray k => rw [h.resolve_eq] at k; cases k
    | again _ _ rest' => exact ih rest'
    | object k hnew | oneOf k hnew | other k hnew => exact absurd ((h.unique k).1 ▸ hmem) hnew
  | object h hnew rest ih =>
    cases h' with
    | astray k => rw [h.resolve_eq] at k; cases k
    | again k hmem => exact absurd ((k.unique h).1 ▸ hmem) hnew
    | object k _ rest' => exact ih ((h.unique k).1 ▸ rest')
    | oneOf k => cases (h.unique k).2
    | other k _ hobject => exact absurd (k.unique h).2 (hobject _)
  | oneOf h hnew rest ih =>
    cases h' with
    | astray k => rw [h.resolve_eq] at k; cases k
    | again k hmem => exact absurd ((k.unique h).1 ▸ hmem) hnew
    | object k => cases (h.unique k).2
    | oneOf k _ rest' =>
      obtain ⟨rfl, hshape⟩ := h.unique k
      cases hshape
      exact ih rest'
    | other k _ _ honeOf => exact absurd (k.unique h).2 (honeOf _)
  | other h hnew hobject honeOf =>
    cases h' with
    | astray k => rw [h.resolve_eq] at k; cases k
    | again k hmem => exact absurd ((k.unique h).1 ▸ hmem) hnew
    | object k => exact absurd (h.unique k).2 (hobject _)
    | oneOf k => exact absurd (h.unique k).2 (honeOf _)
    | other k => rw [(h.unique k).1]

/-- A budget above the number of slots is enough for the test. -/
theorem testTargets_eq_testFlatten {budget : Nat} (hbudget : g.size < budget) (target : NodeId) :
    g.testTargets owner budget [target] [] = g.testFlatten owner target :=
  (flattenTest_testTargets List.nodup_nil (by simp) (by simpa using hbudget)).unique
    (flattenTest_testFlatten target)

/-- A node is an object, or a disjunction all of whose alternatives stand for nodes of a list. -/
def OpensInto (g : Graph) (nodes : List NodeId) (id : NodeId) : Prop :=
  (∃ clauses, g.get id = .ok (.body (.object clauses))) ∨
    ∃ alternatives, g.get id = .ok (.body (.oneOf alternatives)) ∧
      ∀ alternative ∈ alternatives, ∃ target ∈ nodes, ∃ shape, g.StandsFor alternative target shape

/-- A test that passes has collected the nodes that its targets stand for, closed under
alternatives. -/
theorem FlattenTest.exists_nodes {pending seen : List NodeId} {result : Except Fault Unit}
    (h : g.FlattenTest owner pending seen result) (hok : result = .ok ()) :
    ∃ nodes, seen ⊆ nodes ∧
      (∀ id ∈ pending, ∃ target ∈ nodes, ∃ shape, g.StandsFor id target shape) ∧
      ∀ id ∈ nodes, id ∈ seen ∨ g.OpensInto nodes id := by
  induction h with
  | done seen => exact ⟨seen, List.Subset.refl _, by simp, fun id hid ↦ .inl hid⟩
  | astray h => cases hok
  | again h hmem rest ih =>
    obtain ⟨nodes, hsub, hpending, hnodes⟩ := ih hok
    exact ⟨nodes, hsub, List.forall_mem_cons.2 ⟨⟨_, hsub hmem, _, h⟩, hpending⟩, hnodes⟩
  | @object id target clauses pending seen result h hnew rest ih =>
    obtain ⟨nodes, hsub, hpending, hnodes⟩ := ih hok
    refine ⟨nodes, fun x hx ↦ hsub (List.mem_cons_of_mem _ hx),
      List.forall_mem_cons.2 ⟨⟨_, hsub List.mem_cons_self, _, h⟩, hpending⟩, fun x hx ↦ ?_⟩
    rcases hnodes x hx with hseen | hopens
    · rcases List.mem_cons.1 hseen with rfl | hseen
      · exact .inr (.inl ⟨clauses, h.get_target⟩)
      · exact .inl hseen
    · exact .inr hopens
  | @oneOf id target alternatives pending seen result h hnew rest ih =>
    obtain ⟨nodes, hsub, hpending, hnodes⟩ := ih hok
    refine ⟨nodes, fun x hx ↦ hsub (List.mem_cons_of_mem _ hx),
      List.forall_mem_cons.2 ⟨⟨_, hsub List.mem_cons_self, _, h⟩,
        fun x hx ↦ hpending x (List.mem_append_right _ hx)⟩, fun x hx ↦ ?_⟩
    rcases hnodes x hx with hseen | hopens
    · rcases List.mem_cons.1 hseen with rfl | hseen
      · exact .inr (.inr ⟨alternatives, h.get_target, fun a ha ↦
          hpending a (List.mem_append_left _ (List.mem_reverse.2 ha))⟩)
      · exact .inl hseen
    · exact .inr hopens
  | other h => cases hok

/-- Targets that are objects or disjunctions of objects pass the test. -/
theorem FlattenTest.ok_of_flattenable {pending seen : List NodeId} {result : Except Fault Unit}
    (h : g.FlattenTest owner pending seen result) (hflat : ∀ id ∈ pending, g.Flattenable id) :
    result = .ok () := by
  induction h with
  | done => rfl
  | astray h =>
    cases hflat _ List.mem_cons_self with
    | object k => rw [k.resolve_eq] at h; cases h
    | oneOf k => rw [k.resolve_eq] at h; cases h
  | again h hmem rest ih => exact ih (List.forall_mem_cons.1 hflat).2
  | object h hnew rest ih => exact ih (List.forall_mem_cons.1 hflat).2
  | oneOf h hnew rest ih =>
    refine ih ?_
    intro x hx
    rcases List.mem_append.1 hx with hx | hx
    · cases hflat _ List.mem_cons_self with
      | object k => cases (h.unique k).2
      | oneOf k halternatives =>
        cases (h.unique k).2
        exact halternatives x (List.mem_reverse.1 hx)
    · exact hflat x (List.mem_cons_of_mem _ hx)
  | other h hnew hobject honeOf =>
    cases hflat _ List.mem_cons_self with
    | object k => exact absurd (h.unique k).2 (hobject _)
    | oneOf k => exact absurd (h.unique k).2 (honeOf _)

theorem testFlatten_of_flattenable {target : NodeId} (h : g.Flattenable target) :
    g.testFlatten owner target = .ok () :=
  (flattenTest_testFlatten target).ok_of_flattenable (by simpa using h)

/-- Where no cycle runs through unguarded references, which a rank shows, targets that pass the
test are objects or disjunctions of objects. -/
theorem flattenable_of_testFlatten {target : NodeId} (h : g.testFlatten owner target = .ok ())
    (rank : NodeId → Nat)
    (hrank : ∀ id next, g.Reaches target id → g.Unguarded id next → rank next < rank id) :
    g.Flattenable target := by
  obtain ⟨nodes, -, htarget, hnodes⟩ := (flattenTest_testFlatten target).exists_nodes h
  have hflat (n : Nat) : ∀ id next shape, rank next < n → g.Reaches target id →
      g.StandsFor id next shape → next ∈ nodes → g.Flattenable id := by
    induction n with
    | zero => exact fun _ _ _ hlt ↦ absurd hlt (Nat.not_lt_zero _)
    | succ n ih =>
      intro id next shape hlt hreach hstands hmem
      rcases hnodes next hmem with hseen | ⟨clauses, hget⟩ | ⟨alternatives, hget, halternatives⟩
      · simp at hseen
      · exact .object (hstands.congr_shape hget)
      · refine .oneOf (hstands.congr_shape hget) ?_
        intro alternative halternative
        obtain ⟨next', hmem', shape', hstands'⟩ := halternatives alternative halternative
        have hreach' : g.Reaches target next := hreach.trans hstands.reaches
        have hlt' := hrank next next' hreach' ⟨_, hget, alternative, halternative, _, hstands'⟩
        exact ih alternative next' shape' (by omega)
          (hreach'.tail ⟨_, hget, halternative⟩) hstands' hmem'
  obtain ⟨next, hmem, shape, hstands⟩ := htarget target (by simp)
  exact hflat (rank next + 1) target next shape (Nat.lt_succ_self _) .refl hstands hmem

end Graph

end JsonPattern
