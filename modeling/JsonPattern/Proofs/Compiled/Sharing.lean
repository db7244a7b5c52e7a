import JsonPattern.Proofs.Compiled.Meaning
import JsonPattern.Proofs.Graph.DepthFirst
import JsonPattern.Proofs.Validator.Equations
import JsonPattern.Regex.Search
import Mathlib.Data.Set.Card

/-!
# Sharing

A compiled validator has one check for every node with a body that the root leads to, however often
the node is referred to and whether it lies on a cycle. The slots are numbered in the order of the
depth-first walk from the root, and the check in a slot is that of the body of its node, with the
slots of the nodes that its references stand for.
-/

namespace JsonPattern

namespace Graph

variable {g : Graph} {E : Engine} {root : NodeId} {V : Validator}

/-- A validator has the checks of the nodes that the root leads to, one each, in given slots. -/
structure Numbering (g : Graph) (E : Engine) (root : NodeId) (slot : NodeId → Nat)
    (V : Validator) : Prop where
  /-- There are as many checks as nodes. -/
  size_eq : V.size = (g.bodies root).ncard
  /-- Every node has a slot of its own, and every slot belongs to a node. -/
  bijOn : Set.BijOn slot (g.bodies root) (Set.Iio V.size)
  /-- A reference has the slot of the node that it stands for. -/
  slot_eq : ∀ id target shape, g.StandsFor id target shape → slot id = slot target
  /-- The root of the validator is the slot of the root. -/
  root_eq : V.root = slot root
  /-- The slot of a node holds the check of its body, with slots for its references. -/
  check_eq : ∀ id ∈ g.bodies root, ∀ shape, g.get id = .ok (.body shape) →
    ∃ check, shape.check? E = some check ∧ V.checks[slot id]? = some (check.map slot)

/-- The nodes visited are the nodes with bodies. -/
theorem Visited.bodies_eq {order : List NodeId} (h : g.Visited E root order) :
    g.bodies root = {id | id ∈ order} :=
  Set.ext fun _ ↦ h.mem_iff.symm

/-- The checks in the order of a visit are numbered by the positions of their nodes. -/
theorem Compiled.numbering {order : List NodeId} {rank : NodeId → Nat}
    (h : g.Compiled E root order rank) :
    g.Numbering E root (g.slot order) ⟨(g.checks E order).toArray, g.slot order root⟩ := by
  have hsize : (g.checks E order).toArray.size = order.length := by simp [checks]
  constructor
  case size_eq =>
    have hfinset : g.bodies root = ↑order.toFinset := by
      rw [h.visited.bodies_eq, List.coe_toFinset]
    rw [hfinset, Set.ncard_coe_finset, List.toFinset_card_of_nodup h.visited.distinct.nodup]
    exact hsize
  case bijOn =>
    rw [h.visited.bodies_eq]
    refine ⟨fun id hid ↦ ?_, fun id hid other hother he ↦ ?_, fun i hi ↦ ?_⟩
    · obtain ⟨hslot, hlt⟩ := h.slot_lt hid
      rw [hslot]
      exact hlt.trans_eq hsize.symm
    · rw [(h.slot_lt hid).1, (h.slot_lt hother).1] at he
      exact (List.idxOf_inj hid).1 he
    · have hi : i < order.length := hsize ▸ hi
      refine ⟨order[i], List.getElem_mem hi, ?_⟩
      rw [(h.slot_lt (List.getElem_mem hi)).1]
      exact h.visited.distinct.nodup.idxOf_getElem i hi
  case slot_eq =>
    intro id target shape hstands
    rw [slot, slot, hstands.resolved_eq, hstands.self.resolved_eq]
  case root_eq => rfl
  case check_eq =>
    intro id hid shape hget
    obtain ⟨check, hcheck, hslot⟩ := h.exists_check (h.visited.mem_iff.2 hid) hget
    exact ⟨check, hcheck, by rw [List.getElem?_toArray, hslot]⟩

/-- The positions in the order of the visit are such a numbering. -/
theorem numbering_of_visit {order : List NodeId} (h : g.compileWith E root = .ok V)
    (hvisit : g.visit E root = .ok order) : g.Numbering E root (g.slot order) V := by
  obtain ⟨order', rank, hvisit', hcompiled, rfl⟩ := exists_compiled h
  obtain rfl : order = order' := Except.ok.inj (hvisit.symm.trans hvisit')
  exact hcompiled.numbering

/-- What the body refers to that an id stands for is led to by what leads to the id. -/
theorem reaches_of_mem_refs {id next : NodeId} (hid : g.Reaches root id)
    (hnext : next ∈ (g.shape id).refs) : g.Reaches root next := by
  cases hresolve : g.resolve id with
  | error fault => simp [shape, hresolve, Shape.refs] at hnext
  | ok result =>
    have hstands : g.StandsFor id result.1 result.2 := resolve_eq_ok_iff.1 hresolve
    rw [hstands.shape_eq] at hnext
    exact (hid.trans hstands.reaches).tail ⟨_, ChainEnds.get_target hstands, hnext⟩

/-- The slot of an id that the root leads to holds the check of the body that the id stands for. -/
theorem Numbering.check_slot_eq {slot : NodeId → Nat} (hslot : g.Numbering E root slot V)
    (h : g.compileWith E root = .ok V) {id : NodeId} (hid : g.Reaches root id) :
    V.table.check (slot id) = (((g.shape id).check? E).getD .anything).map slot := by
  obtain ⟨order, rank, -, hcompiled, -⟩ := exists_compiled h
  obtain ⟨target, hmem, shape, hstands⟩ := hcompiled.visited.standsFor_of_reaches hid
  obtain ⟨check, hcheck, hget⟩ := hslot.check_eq target (hcompiled.visited.bodies_eq ▸ hmem) shape
    (ChainEnds.get_target hstands)
  rw [hslot.slot_eq id target shape hstands, Validator.check_eq_of_getElem? hget, hstands.shape_eq,
    hcheck, Option.getD_some]

theorem Numbering.slot_resolved {slot : NodeId → Nat} (hslot : g.Numbering E root slot V)
    (id : NodeId) : slot (g.resolved id) = slot id := by
  cases hresolve : g.resolve id with
  | error fault => simp [resolved, hresolve]
  | ok result =>
    have hstands : g.StandsFor id result.1 result.2 := resolve_eq_ok_iff.1 hresolve
    rw [hstands.resolved_eq, hslot.slot_eq id result.1 result.2 hstands]

/-- The graph covers its validator along any numbering. -/
theorem Numbering.exists_covers {slot : NodeId → Nat} (hslot : g.Numbering E root slot V)
    (h : g.compileWith E root = .ok V) :
    ∃ rank, (g.table E).Covers V.table slot (g.bodies root) rank := by
  obtain ⟨order, rank, -, hcompiled, hV⟩ := exists_compiled h
  have hranked : (g.table E).Ranked (g.bodies root) rank :=
    hcompiled.visited.bodies_eq ▸ hcompiled.ranked hcompiled.visited.distinct.length_le
  refine ⟨rank, .of_injOn hranked (fun id hid ↦ ?_) (fun id hid ↦ ?_) hslot.bijOn.injOn⟩
  · have hsize : V.size = order.length := by simp [hV, Validator.size, checks]
    exact (hcompiled.rank_lt id (hcompiled.visited.mem_iff.2 hid)).trans_eq hsize.symm
  · have hresolved : slot ∘ g.resolved = slot := funext hslot.slot_resolved
    rw [hslot.check_slot_eq h hid.1, table, Check.map_map, hresolved]

theorem resolved_mem_bodies (h : g.compileWith E root = .ok V) {id : NodeId}
    (hid : g.Reaches root id) : g.resolved id ∈ g.bodies root := by
  obtain ⟨order, rank, -, hcompiled, -⟩ := exists_compiled h
  obtain ⟨target, hmem, shape, hstands⟩ := hcompiled.visited.standsFor_of_reaches hid
  rw [hstands.resolved_eq, hcompiled.visited.bodies_eq]
  exact hmem

/-- A validator that is compiled from a root has a slot for an id that the root leads to. -/
def HasSlot (g : Graph) (E : Engine) (V : Validator) (id : NodeId) (i : Nat) : Prop :=
  ∃ root slot, g.compileWith E root = .ok V ∧ g.Numbering E root slot V ∧ g.Reaches root id ∧
    slot id = i

theorem hasSlot_root (h : g.compileWith E root = .ok V) : g.HasSlot E V root V.root := by
  obtain ⟨order, rank, hvisit, hcompiled, rfl⟩ := exists_compiled h
  exact ⟨root, g.slot order, h, hcompiled.numbering, .refl, rfl⟩

/-- What a slot does can be told from the graph. -/
theorem HasSlot.exists_agrees {id : NodeId} {i : Nat} (h : g.HasSlot E V id i) :
    ∃ nodes rank, (g.table E).Ranked nodes rank ∧ g.resolved id ∈ nodes ∧
      V.table.Agrees i (g.table E) (g.resolved id) := by
  obtain ⟨root, slot, hcompile, hslot, hreach, rfl⟩ := h
  obtain ⟨rank, hcovers⟩ := hslot.exists_covers hcompile
  have hmem := resolved_mem_bodies hcompile hreach
  exact ⟨g.bodies root, rank, hcovers.toRanked, hmem,
    hslot.slot_resolved id ▸ hcovers.agrees hmem⟩

/-- The root does what the graph tells of it, and the graph is ranked on the nodes with bodies. -/
theorem exists_agrees_root (h : g.compileWith E root = .ok V) :
    ∃ rank, (g.table E).Ranked (g.bodies root) rank ∧
      ∀ path value,
        V.validateAt path value = (g.table E).failures (g.resolved root) path value := by
  obtain ⟨order, rank', hvisit, hcompiled, rfl⟩ := exists_compiled h
  obtain ⟨rank, hcovers⟩ := hcompiled.numbering.exists_covers h
  have hmem := resolved_mem_bodies h .refl
  refine ⟨rank, hcovers.toRanked, fun path value ↦ ?_⟩
  rw [← hcovers.failures_eq hmem, hcompiled.numbering.slot_resolved]
  rfl

/-- A compiled validator preserves sharing and cycles. Its slots are numbered by the walk from the
root, depth first and in declared order, which has one order only; the position of a node in this
order is its slot, and the validator has the checks of the nodes in these slots. The memo of the
walk that makes the validator gives the slots: to a node its own, to whatever else the walk has met
that of the node that it stands for. -/
theorem numbering_of_compile (h : g.compileWith E root = .ok V) :
    ∃ (order : List NodeId) (slot : NodeId → Nat),
      (∀ other, g.DepthFirst [root] [] other ↔ other = order) ∧
      (∀ i id, order[i]? = some id ↔ id ∈ g.bodies root ∧ slot id = i) ∧
      g.Numbering E root slot V ∧
      ∃ least, ∀ rounds, least ≤ rounds → ∃ arena,
        g.assemble E rounds root = some (.ok (V.root, arena)) ∧ arena.validator V.root = V ∧
        (∀ id, g.Met root id ∨ id ∈ g.bodies root → arena.memo id = some (slot id)) ∧
        ∀ id other, arena.memo id = some other → other = slot id := by
  obtain ⟨least, hassemble⟩ := exists_assemble g E root
  obtain ⟨order, rank, hvisit, hcompiled, rfl⟩ := exists_compiled h
  have hwalk := depthFirst_of_visit hvisit
  refine ⟨order, g.slot order, fun other ↦ ⟨fun hother ↦ hother.unique hwalk, ?_⟩, ?_,
    hcompiled.numbering, least, ?_⟩
  · rintro rfl
    exact hwalk
  · intro i id
    rw [hcompiled.visited.bodies_eq]
    constructor
    · intro hi
      obtain ⟨hlt, rfl⟩ := List.getElem?_eq_some_iff.1 hi
      refine ⟨List.getElem_mem hlt, ?_⟩
      rw [(hcompiled.slot_lt (List.getElem_mem hlt)).1]
      exact hcompiled.visited.distinct.nodup.idxOf_getElem i hlt
    · rintro ⟨hid, rfl⟩
      obtain ⟨hslot, hlt⟩ := hcompiled.slot_lt hid
      rw [hslot, List.getElem?_eq_getElem hlt, List.getElem_idxOf]
  · intro rounds hrounds
    have hwalk := hassemble rounds hrounds
    rw [h] at hwalk
    obtain ⟨arena, hwalk, hvalidator, hvisit', hsound, hcomplete⟩ := hwalk
    obtain rfl : order = arena.bodies := Except.ok.inj (hvisit.symm.trans hvisit')
    refine ⟨arena, hwalk, hvalidator, fun id hid ↦ ?_, fun id other ↦ hsound.slot_of_memo⟩
    have hmemo : ∃ slot, arena.memo id = some slot := hid.elim
      (hcompiled.visited.exists_memo hcomplete)
      fun hid ↦ hsound.exists_memo id (hcompiled.visited.mem_iff.2 hid)
    obtain ⟨slot, hslot⟩ := hmemo
    rw [hslot, hsound.slot_of_memo hslot]

/-- People with a name and a nickname, and with friends, who are people. -/
def people : Graph :=
  ⟨#[some (.body (.type .string)), some (.cyclic ⟨2⟩),
    some (.body (.object [.named "friends" ⟨3⟩, .named "name" ⟨0⟩, .named "nickname" ⟨0⟩])),
    some (.body (.arrayOf ⟨1⟩))]⟩

/-- The object comes first, the list of friends that refers back to it comes next, and the string
that is shared comes last. -/
theorem numbering_people : ∃ V, people.compileWith Regex.engine ⟨1⟩ = .ok V ∧ V.size = 3 ∧
    ∃ slot, people.Numbering Regex.engine ⟨1⟩ slot V ∧ slot ⟨1⟩ = slot ⟨2⟩ ∧
      V.checks.toList.head? =
        some (.object [.named "friends" 1, .named "name" 2, .named "nickname" 2]) := by
  have hcompile : people.compileWith Regex.engine ⟨1⟩ = .ok ⟨#[.object [.named "friends" 1,
      .named "name" 2, .named "nickname" 2], .arrayOf 0, .kind .string], 0⟩ := rfl
  obtain ⟨order, slot, -, -, hnumbering, -⟩ := numbering_of_compile hcompile
  exact ⟨_, hcompile, rfl, slot, hnumbering,
    hnumbering.slot_eq ⟨1⟩ ⟨2⟩ _ (.cyclic rfl (.body rfl)), rfl⟩

end Graph

end JsonPattern
