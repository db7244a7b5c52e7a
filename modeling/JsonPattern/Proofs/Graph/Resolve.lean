import JsonPattern.Graph.Basic
import Mathlib.Data.List.Perm.Subperm
import Mathlib.Data.List.Nodup
import Mathlib.Logic.Relation

/-!
# Where chains of references end

A chain of cyclic references either ends, at a node with a body or at an id without a pattern, or
it is endless. `Graph.ChainEnds` says how a chain ends without any bound on its length. A chain
that ends does not repeat a node, so its nodes are no more than the slots of the graph, and
`Graph.resolve` with its budget finds the end of every chain that has one.
-/

namespace JsonPattern

/-- Different nodes whose indices are below a bound are no more than the bound. -/
theorem NodeId.length_le_of_nodup {ids : List NodeId} {n : Nat} (hnodup : ids.Nodup)
    (hlt : ∀ id ∈ ids, id.index < n) : ids.length ≤ n := by
  have hmap : (ids.map NodeId.index).Nodup :=
    hnodup.map fun a b h ↦ by cases a; cases b; exact congrArg NodeId.mk h
  have hsub : ids.map NodeId.index ⊆ List.range n := by
    intro i hi
    obtain ⟨id, hid, rfl⟩ := List.mem_map.1 hi
    exact List.mem_range.2 (hlt id hid)
  simpa using (hmap.subperm hsub).length_le

namespace Graph

variable (g : Graph)

/-- A node is a reference to another. -/
def Links (id next : NodeId) : Prop := g.get id = .ok (.cyclic next)

/-- The chain of references that begins at a node ends: at a node with a body, which is given
together with the body, or at an id that has no pattern, whose fault is given. -/
inductive ChainEnds : NodeId → Except Fault (NodeId × Shape NodeId) → Prop
  /-- A body ends the chain. -/
  | body {id : NodeId} {shape : Shape NodeId} (h : g.get id = .ok (.body shape)) :
      ChainEnds id (.ok (id, shape))
  /-- A missing pattern ends the chain. -/
  | fault {id : NodeId} {fault : Fault} (h : g.get id = .error fault) :
      ChainEnds id (.error fault)
  /-- A reference is followed. -/
  | cyclic {id next : NodeId} {outcome : Except Fault (NodeId × Shape NodeId)}
      (h : g.get id = .ok (.cyclic next)) (rest : ChainEnds next outcome) :
      ChainEnds id outcome

/-- An id stands for a node if its chain ends there. -/
def StandsFor (id target : NodeId) (shape : Shape NodeId) : Prop :=
  g.ChainEnds id (.ok (target, shape))

variable {g}

theorem index_lt_of_get {id : NodeId} {pattern : Pattern} (h : g.get id = .ok pattern) :
    id.index < g.size := by
  by_contra hge
  have hnone : g.slots[id.index]? = none := Array.getElem?_eq_none (Nat.le_of_not_lt hge)
  simp [get, hnone] at h

theorem Links.unique {id next next' : NodeId} (h : g.Links id next) (h' : g.Links id next') :
    next = next' := by
  have := Except.ok.inj (h.symm.trans h')
  simpa using this

namespace ChainEnds

variable {id target : NodeId} {shape : Shape NodeId}
  {outcome outcome' : Except Fault (NodeId × Shape NodeId)}

/-- The node at which a chain ends has the body that is given. -/
theorem get_target (h : g.ChainEnds id (.ok (target, shape))) :
    g.get target = .ok (.body shape) := by
  generalize he : (Except.ok (target, shape) : Except Fault (NodeId × Shape NodeId)) = outcome
    at h
  induction h with
  | body h => cases he; exact h
  | fault h => cases he
  | cyclic h rest ih => exact ih he

/-- A reference ends where the node ends that it names. -/
theorem of_link (h : g.ChainEnds id outcome) {next : NodeId} (hlink : g.Links id next) :
    g.ChainEnds next outcome := by
  cases h with
  | body hget | fault hget => rw [Links, hget] at hlink; cases hlink
  | cyclic hget rest => exact hlink.unique hget ▸ rest

/-- A chain that ends never comes back to where it began. -/
theorem not_revisit (h : g.ChainEnds id outcome) : ¬ Relation.TransGen g.Links id id := by
  induction h with
  | body h =>
    intro hback
    obtain ⟨node, hlink, -⟩ := Relation.TransGen.head'_iff.1 hback
    simp [Links, h] at hlink
  | fault h =>
    intro hback
    obtain ⟨node, hlink, -⟩ := Relation.TransGen.head'_iff.1 hback
    simp [Links, h] at hlink
  | @cyclic id next outcome h rest ih =>
    intro hback
    obtain ⟨node, hlink, hrest⟩ := Relation.TransGen.head'_iff.1 hback
    obtain rfl : next = node := Links.unique h hlink
    exact ih (.tail' hrest h)

/-- The references on a chain that ends are different nodes, and a budget above their number finds
the end. -/
theorem exists_nodes (h : g.ChainEnds id outcome) (origin : NodeId) :
    ∃ nodes : List NodeId, nodes.Nodup ∧
      (∀ node ∈ nodes, node.index < g.size ∧ Relation.ReflTransGen g.Links id node) ∧
      ∀ budget, nodes.length < budget → g.follow origin budget id = outcome := by
  induction h with
  | @body id shape h =>
    refine ⟨[], List.nodup_nil, by simp, ?_⟩
    intro budget hbudget
    obtain ⟨budget, rfl⟩ := Nat.exists_eq_add_of_lt hbudget
    simp [follow, h]
  | @fault id fault h =>
    refine ⟨[], List.nodup_nil, by simp, ?_⟩
    intro budget hbudget
    obtain ⟨budget, rfl⟩ := Nat.exists_eq_add_of_lt hbudget
    simp [follow, h]
  | @cyclic id next outcome h rest ih =>
    obtain ⟨nodes, hnodup, hnodes, hfollow⟩ := ih
    refine ⟨id :: nodes, List.nodup_cons.2 ⟨?_, hnodup⟩, ?_, ?_⟩
    · intro hmem
      exact (cyclic h rest).not_revisit (.head' h (hnodes id hmem).2)
    · intro node hmem
      rcases List.mem_cons.1 hmem with rfl | hmem
      · exact ⟨index_lt_of_get h, .refl⟩
      · exact ⟨(hnodes node hmem).1, .head h (hnodes node hmem).2⟩
    · intro budget hbudget
      obtain ⟨budget, rfl⟩ : ∃ n, budget = n + 1 := ⟨budget - 1, by simp at hbudget; omega⟩
      simpa only [follow, h] using hfollow budget (by simpa using hbudget)

/-- Any budget above the number of slots finds the end of a chain that has one. -/
theorem follow_eq (h : g.ChainEnds id outcome) (origin : NodeId) {budget : Nat}
    (hbudget : g.size < budget) : g.follow origin budget id = outcome := by
  obtain ⟨nodes, hnodup, hnodes, hfollow⟩ := h.exists_nodes origin
  have hle := NodeId.length_le_of_nodup hnodup fun node hmem ↦ (hnodes node hmem).1
  exact hfollow budget (by omega)

theorem resolve_eq (h : g.ChainEnds id outcome) : g.resolve id = outcome :=
  h.follow_eq id (Nat.lt_succ_self _)

/-- A chain ends in one way only. -/
theorem unique (h : g.ChainEnds id outcome) (h' : g.ChainEnds id outcome') :
    outcome = outcome' :=
  h.resolve_eq.symm.trans h'.resolve_eq

end ChainEnds

/-- What is found over some budget is the end of the chain, unless the budget runs out. -/
theorem chainEnds_of_follow {origin id : NodeId} {budget : Nat}
    {outcome : Except Fault (NodeId × Shape NodeId)} (h : g.follow origin budget id = outcome)
    (hne : outcome ≠ .error ⟨origin, .endlessReference⟩) : g.ChainEnds id outcome := by
  induction budget generalizing id with
  | zero => exact absurd h.symm hne
  | succ budget ih =>
    unfold follow at h
    split at h
    · next fault hget => exact h ▸ .fault hget
    · next shape hget => exact h ▸ .body hget
    · next next hget => exact .cyclic hget (ih h)

theorem resolve_eq_endless {id : NodeId} (h : ¬ ∃ outcome, g.ChainEnds id outcome) :
    g.resolve id = .error ⟨id, .endlessReference⟩ := by
  by_contra hne
  exact h ⟨_, chainEnds_of_follow rfl hne⟩

@[simp]
theorem resolve_eq_ok_iff {id target : NodeId} {shape : Shape NodeId} :
    g.resolve id = .ok (target, shape) ↔ g.StandsFor id target shape :=
  ⟨fun h ↦ chainEnds_of_follow h (by simp), fun h ↦ h.resolve_eq⟩

namespace StandsFor

variable {id target target' : NodeId} {shape shape' : Shape NodeId}

theorem unique (h : g.StandsFor id target shape) (h' : g.StandsFor id target' shape') :
    target = target' ∧ shape = shape' := by
  have := ChainEnds.unique h h'
  simpa using this

/-- A node with a body stands for itself. -/
theorem self (h : g.StandsFor id target shape) : g.StandsFor target target shape :=
  .body (ChainEnds.get_target h)

theorem resolve_eq (h : g.StandsFor id target shape) : g.resolve id = .ok (target, shape) :=
  ChainEnds.resolve_eq h

/-- The body that an id stands for is the body of the node that it stands for. -/
theorem congr_shape (h : g.StandsFor id target shape) (hget : g.get target = .ok (.body shape')) :
    g.StandsFor id target shape' := by
  have hsame : shape = shape' := by simpa [hget] using (ChainEnds.get_target h).symm
  exact hsame ▸ h

/-- A reference stands for the same node as the node that it names. -/
theorem of_link (h : g.StandsFor id target shape) {next : NodeId} (hlink : g.Links id next) :
    g.StandsFor next target shape :=
  ChainEnds.of_link h hlink

theorem exists_get (h : g.StandsFor id target shape) : ∃ pattern, g.get id = .ok pattern := by
  have h : g.ChainEnds id (.ok (target, shape)) := h
  cases h with
  | body hget => exact ⟨_, hget⟩
  | cyclic hget rest => exact ⟨_, hget⟩

theorem index_lt (h : g.StandsFor id target shape) : target.index < g.size :=
  index_lt_of_get (ChainEnds.get_target h)

end StandsFor

end Graph

end JsonPattern
