import JsonPattern.Proofs.Graph.Compile
import JsonPattern.Proofs.Validator.Verdict

/-!
# The tables of a compiled graph

The graph itself is a table of checks, ranked on the nodes visited by the rank that the search for
cycles leaves. The graph covers its validator along the numbering of slots, so both have the same
verdicts. In the validator every slot is ranked, those without a check included.
-/

namespace JsonPattern

/-- A proper body has a check. -/
theorem Shape.Proper.exists_check {E : Engine} {ρ : Type} {shape : Shape ρ} (h : shape.Proper E) :
    ∃ check, shape.check? E = some check := by
  cases shape with
  | regex source =>
    obtain ⟨matcher, hread⟩ := h
    exact ⟨.regex matcher ("/" ++ source ++ "/"), by rw [check?, hread]; rfl⟩
  | literal | type | arrayOf | object | oneOf | anything => exact ⟨_, rfl⟩

namespace Graph

variable {g : Graph} {E : Engine}

/-- The graph as a table of checks of which so many are followed in a row without descending into
the value. -/
def tableWithin (g : Graph) (E : Engine) (hops : Nat) : Table NodeId := ⟨(g.table E).check, hops⟩

/-- The check of a node refers to what its body refers to. -/
theorem refs_check_subset {id : NodeId} {shape : Shape NodeId} (h : g.get id = .ok (.body shape)) :
    ((g.table E).check id).refs ⊆ shape.refs.map g.resolved ∧
      ((g.table E).check id).unguardedRefs ⊆ shape.unguardedRefs.map g.resolved := by
  have hcheck : (g.table E).check id = ((shape.check? E).getD .anything).map g.resolved := by
    simp only [table, shape_eq_of_get h]
  rw [hcheck, Check.refs_map, Check.unguardedRefs_map]
  cases shape with
  | regex source =>
    cases hread : E.read source <;>
      simp [Shape.check?, hread, Except.toOption, Check.refs, Check.unguardedRefs]
  | type name => cases name <;> simp [Shape.check?, TypeName.check, Check.refs, Check.unguardedRefs]
  | literal | arrayOf | object | oneOf | anything =>
    exact ⟨List.Subset.refl _, List.Subset.refl _⟩

theorem table_check (id : NodeId) :
    (g.table E).check id = (((g.shape id).check? E).getD .anything).map g.resolved :=
  rfl

/-- An id and the node that it stands for have the same check. -/
theorem check_resolved (id : NodeId) :
    (g.table E).check (g.resolved id) = (g.table E).check id := by
  rw [table_check, table_check, shape_resolved]

theorem StandsFor.check_eq {id target : NodeId} {shape : Shape NodeId}
    (h : g.StandsFor id target shape) : (g.table E).check id = (g.table E).check target := by
  rw [← h.resolved_eq, check_resolved]

namespace Compiled

variable {root : NodeId} {order : List NodeId} {rank : NodeId → Nat}

/-- The graph is ranked on the nodes visited. -/
theorem ranked (h : g.Compiled E root order rank) {hops : Nat} (hhops : order.length ≤ hops) :
    (g.tableWithin E hops).Ranked {id | id ∈ order} rank := by
  refine ⟨fun id hid next hnext ↦ ?_, fun id hid ↦ (h.rank_lt id hid).trans_le hhops,
    fun id hid next hnext ↦ ?_⟩
  · obtain ⟨shape, hget, -⟩ := h.visited.settled id hid
    obtain ⟨ref, href, rfl⟩ := List.mem_map.1 ((refs_check_subset hget).1 hnext)
    obtain ⟨target, hmem, shape', hstands⟩ := h.visited.ref_mem hid hget href
    exact hstands.resolved_eq ▸ hmem
  · obtain ⟨shape, hget, -⟩ := h.visited.settled id hid
    refine h.rank_descends id hid next ((h.visited.mem_unguarded_iff hid).1 ?_)
    rw [unguarded, shape_eq_of_get hget]
    exact (refs_check_subset hget).2 hnext

theorem slot_lt (h : g.Compiled E root order rank) {id : NodeId} (hid : id ∈ order) :
    g.slot order id = order.idxOf id ∧ order.idxOf id < order.length := by
  obtain ⟨shape, hget, -⟩ := h.visited.settled id hid
  exact ⟨by rw [slot, resolved_eq_of_get hget], List.idxOf_lt_length_of_mem hid⟩

/-- The body of a node visited has a check, and the slot of the node holds it, with slots for its
references. -/
theorem exists_check (h : g.Compiled E root order rank) {id : NodeId} {shape : Shape NodeId}
    (hid : id ∈ order) (hget : g.get id = .ok (.body shape)) :
    ∃ check, shape.check? E = some check ∧
      (g.checks E order)[g.slot order id]? = some (check.map (g.slot order)) := by
  obtain ⟨check, hcheck⟩ :=
    (h.wellFormed.proper id (h.visited.reached id hid) shape hget).exists_check
  obtain ⟨hslot, hlt⟩ := h.slot_lt hid
  refine ⟨check, hcheck, ?_⟩
  rw [checks, hslot, List.getElem?_map, List.getElem?_eq_getElem hlt, List.getElem_idxOf,
    Option.map_some, map_slot_check hget, hcheck, Option.getD_some]

/-- The graph covers its validator. -/
theorem covers (h : g.Compiled E root order rank) {hops : Nat} (hhops : order.length ≤ hops)
    (start : Nat) :
    (g.tableWithin E hops).Covers (Validator.table ⟨(g.checks E order).toArray, start⟩)
      (g.slot order) {id | id ∈ order} rank := by
  refine .of_injOn (h.ranked hhops) (?_) (?_) ?_
  · intro id hid
    simpa [Validator.table, Validator.size, checks] using h.rank_lt id hid
  · intro id hid
    obtain ⟨hslot, hlt⟩ := h.slot_lt hid
    simp [Validator.table, checks, hslot, hlt, tableWithin]
  · intro id hid id' hid' he
    obtain ⟨hslot, hlt⟩ := h.slot_lt hid
    rw [hslot, (h.slot_lt hid').1] at he
    exact (List.idxOf_inj hid).1 he

/-- Every slot of the validator is ranked. -/
theorem exists_ranked (h : g.Compiled E root order rank) (start : Nat) :
    ∃ rank' : Nat → Nat,
      (Validator.table ⟨(g.checks E order).toArray, start⟩).Ranked Set.univ rank' := by
  refine ⟨fun i ↦ (order[i]?.map rank).getD 0, fun _ _ _ _ ↦ Set.mem_univ _, fun i _ ↦ ?_,
    fun i _ next hnext ↦ ?_⟩
  · change _ < (g.checks E order).toArray.size
    rw [List.size_toArray, checks, List.length_map]
    cases hi : order[i]? with
    | none =>
      obtain ⟨target, hmem, -⟩ := h.visited.root_mem
      exact List.length_pos_of_mem hmem
    | some id => exact h.rank_lt id (List.mem_of_getElem? hi)
  · cases hi : order[i]? with
    | none => simp [Validator.table, checks, hi, Check.unguardedRefs] at hnext
    | some id =>
      have hid := List.mem_of_getElem? hi
      have hcheck : (Validator.table ⟨(g.checks E order).toArray, start⟩).check i =
          ((g.table E).check id).map (g.slot order) := by
        simp [Validator.table, checks, hi]
      rw [hcheck, Check.unguardedRefs_map] at hnext
      obtain ⟨target, htarget, rfl⟩ := List.mem_map.1 hnext
      have hranked := h.ranked le_rfl
      have hmem : target ∈ order :=
        hranked.closed id hid target (Check.unguardedRefs_subset _ htarget)
      obtain ⟨hslot, hlt⟩ := h.slot_lt hmem
      simp only [hslot, List.getElem?_eq_getElem hlt, List.getElem_idxOf, Option.map_some,
        Option.getD_some]
      exact hranked.descends id hid target htarget

end Compiled

/-- A rank decreases in a compiled validator wherever the value is not descended into. -/
theorem exists_ranked_of_compile {root : NodeId} {V : Validator}
    (h : g.compileWith E root = .ok V) :
    ∃ rank : Nat → Nat, V.table.Ranked Set.univ rank := by
  obtain ⟨order, rank, -, hcompiled, rfl⟩ := exists_compiled h
  exact hcompiled.exists_ranked _

end Graph

end JsonPattern
