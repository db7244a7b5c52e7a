import JsonPattern.Proofs.Graph.Defects
import JsonPattern.Proofs.Graph.Growth
import JsonPattern.Proofs.Graph.Loops
import Mathlib.Data.Fintype.Pigeonhole

/-!
# Chains of references, node by node

`Graph.chainAt` numbers the nodes that are met when references are followed. A chain goes one of
three ways: it comes to a node with a body, it comes to an id without a pattern, or it comes back to
one of its nodes, not necessarily the first. A chain that ends meets no node twice, and it ends
alike from each of its nodes; one that does not end has a node for every number, so it meets one of
them twice. What a chase yields tells exactly which way the chain goes.
-/

namespace JsonPattern

namespace Graph

variable (g : Graph)

/-- The node that a reference names. -/
def target? (id : NodeId) : Option NodeId :=
  match g.get id with
  | .ok (.cyclic target) => some target
  | _ => none

/-- The nodes on the chain of references that begins at an id, by number. There are none after a
node that is no reference. -/
def chainAt (id : NodeId) : Nat → Option NodeId
  | 0 => some id
  | n + 1 => (chainAt id n).bind g.target?

/-- A chain comes back to one of its nodes. -/
def Revisits (id : NodeId) : Prop :=
  ∃ m n, m < n ∧ ∃ node, g.chainAt id m = some node ∧ g.chainAt id n = some node

/-- The `n`-th node of a chain is the first one without a pattern, and no node comes twice up to
there. -/
structure BreaksAt (id : NodeId) (n : Nat) (fault : Fault) : Prop where
  /-- The node has no pattern. -/
  exists_fault : ∃ node, g.chainAt id n = some node ∧ g.get node = .error fault
  /-- The nodes before it have one. -/
  before : ∀ i < n, ∃ node pattern, g.chainAt id i = some node ∧ g.get node = .ok pattern
  /-- The nodes are different. -/
  distinct : ∀ i j, i < j → j ≤ n → g.chainAt id i ≠ g.chainAt id j

variable {g} {id node next target : NodeId} {shape : Shape NodeId} {fault : Fault} {m n : Nat}
  {outcome : Except Fault (NodeId × Shape NodeId)}

@[simp]
theorem target?_eq_some_iff : g.target? id = some next ↔ g.Links id next := by
  rw [target?, Links]
  split <;> simp_all

theorem chainAt_succ_eq_some_iff :
    g.chainAt id (n + 1) = some next ↔ ∃ node, g.chainAt id n = some node ∧ g.Links node next := by
  simp only [chainAt, Option.bind_eq_some_iff, target?_eq_some_iff]

theorem chainAt_add (m n : Nat) : g.chainAt id (m + n) = (g.chainAt id m).bind (g.chainAt · n) := by
  induction n with
  | zero => simp [chainAt]
  | succ n ih => rw [← Nat.add_assoc, chainAt, ih, Option.bind_assoc]; rfl

theorem reflTransGen_of_chainAt (h : g.chainAt id n = some node) :
    Relation.ReflTransGen g.Links id node := by
  induction n generalizing node with
  | zero => exact Option.some.inj h ▸ .refl
  | succ n ih =>
    obtain ⟨last, hlast, hlink⟩ := chainAt_succ_eq_some_iff.1 h
    exact (ih hlast).tail hlink

theorem exists_chainAt_of_reflTransGen (h : Relation.ReflTransGen g.Links id node) :
    ∃ n, g.chainAt id n = some node := by
  induction h with
  | refl => exact ⟨0, rfl⟩
  | tail _ hlink ih =>
    obtain ⟨n, hn⟩ := ih
    exact ⟨n + 1, chainAt_succ_eq_some_iff.2 ⟨_, hn, hlink⟩⟩

/-- Every node before another one is a reference. -/
theorem exists_links_of_lt (h : g.chainAt id n = some node) (hlt : m < n) :
    ∃ earlier next, g.chainAt id m = some earlier ∧ g.Links earlier next := by
  induction n generalizing node with
  | zero => exact absurd hlt (Nat.not_lt_zero m)
  | succ n ih =>
    obtain ⟨last, hlast, hlink⟩ := chainAt_succ_eq_some_iff.1 h
    rcases Nat.lt_succ_iff_lt_or_eq.1 hlt with hlt | rfl
    · exact ih hlast hlt
    · exact ⟨last, node, hlast, hlink⟩

/-! ### Chains that end -/

/-- A chain ends as it does from any of its nodes. -/
theorem chainEnds_iff_of_chainAt (h : g.chainAt id n = some node) :
    g.ChainEnds id outcome ↔ g.ChainEnds node outcome := by
  induction n generalizing node with
  | zero => rw [Option.some.inj h]
  | succ n ih =>
    obtain ⟨last, hlast, hlink⟩ := chainAt_succ_eq_some_iff.1 h
    exact (ih hlast).trans ⟨fun hends ↦ hends.of_link hlink, fun hends ↦ .cyclic hlink hends⟩

/-- A chain that ends does so at one of its nodes. -/
theorem ChainEnds.exists_chainAt (h : g.ChainEnds id outcome) : ∃ n node,
    g.chainAt id n = some node ∧ g.ChainEnds node outcome ∧ ∀ next, ¬ g.Links node next := by
  obtain ⟨node, hlinks, hlast⟩ := h.exists_last
  obtain ⟨n, hn⟩ := exists_chainAt_of_reflTransGen hlinks
  exact ⟨n, node, hn, (chainEnds_iff_of_chainAt hn).1 h, hlast⟩

/-- A chain that ends meets no node twice. -/
theorem ChainEnds.not_revisits (h : g.ChainEnds id outcome) : ¬ g.Revisits id := by
  rintro ⟨m, n, hlt, node, hm, hn⟩
  obtain ⟨k, rfl⟩ := Nat.exists_eq_add_of_lt hlt
  rw [Nat.add_assoc, chainAt_add, hm] at hn
  obtain ⟨last, hlast, hlink⟩ := chainAt_succ_eq_some_iff.1 hn
  have hends : g.ChainEnds node outcome := (chainEnds_iff_of_chainAt hm).1 h
  exact hends.not_revisit (.tail' (reflTransGen_of_chainAt hlast) hlink)

/-- A chain that does not end has a node for every number, and these cannot all be different. -/
theorem revisits_of_not_chainEnds (h : ¬ ∃ outcome, g.ChainEnds id outcome) : g.Revisits id := by
  have hchain (n : Nat) : ∃ node, g.chainAt id n = some node := by
    induction n with
    | zero => exact ⟨id, rfl⟩
    | succ n ih =>
      obtain ⟨node, hnode⟩ := ih
      obtain ⟨next, hlink⟩ := exists_link_of_not_chainEnds h (reflTransGen_of_chainAt hnode)
      exact ⟨next, chainAt_succ_eq_some_iff.2 ⟨node, hnode, hlink⟩⟩
  choose node hnode using hchain
  have hlt (n : Nat) : (node n).index < g.size := by
    obtain ⟨_, hlink⟩ := exists_link_of_not_chainEnds h (reflTransGen_of_chainAt (hnode n))
    exact index_lt_of_get hlink
  obtain ⟨m, n, hne, heq⟩ :=
    Finite.exists_ne_map_eq_of_infinite fun n ↦ (⟨(node n).index, hlt n⟩ : Fin g.size)
  have hsame : node m = node n := congrArg NodeId.mk (Fin.mk.inj heq)
  rcases Nat.lt_or_gt_of_ne hne with hlt | hlt
  · exact ⟨m, n, hlt, node n, hsame ▸ hnode m, hnode n⟩
  · exact ⟨n, m, hlt, node n, hnode n, hsame ▸ hnode m⟩

/-! ### What a chain comes to -/

theorem standsFor_iff_chainAt :
    g.StandsFor id target shape ↔ (∃ n, g.chainAt id n = some target) ∧
      g.get target = .ok (.body shape) := by
  constructor
  · intro h
    refine ⟨?_, ChainEnds.get_target h⟩
    obtain ⟨n, node, hn, hends, hlast⟩ := ChainEnds.exists_chainAt h
    cases hends with
    | body => exact ⟨n, hn⟩
    | cyclic hget => exact absurd hget (hlast _)
  · rintro ⟨⟨n, hn⟩, hget⟩
    exact (chainEnds_iff_of_chainAt hn).2 (.body hget)

theorem chainEnds_error_iff_breaksAt :
    g.ChainEnds id (.error fault) ↔ ∃ n, g.BreaksAt id n fault := by
  constructor
  · intro h
    obtain ⟨n, node, hn, hends, hlast⟩ := h.exists_chainAt
    have hbefore (i : Nat) (hi : i < n) :
        ∃ earlier next, g.chainAt id i = some earlier ∧ g.Links earlier next :=
      exists_links_of_lt hn hi
    refine ⟨n, ?_, ?_, ?_⟩
    · cases hends with
      | fault hget => exact ⟨node, hn, hget⟩
      | cyclic hget => exact absurd hget (hlast _)
    · intro i hi
      obtain ⟨earlier, next, hearlier, hlink⟩ := hbefore i hi
      exact ⟨earlier, _, hearlier, hlink⟩
    · intro i j hij hj heq
      obtain ⟨earlier, -, hearlier, -⟩ := hbefore i (hij.trans_le hj)
      exact h.not_revisits ⟨i, j, hij, earlier, hearlier, heq ▸ hearlier⟩
  · rintro ⟨n, ⟨node, hn, hget⟩, -, -⟩
    exact (chainEnds_iff_of_chainAt hn).2 (.fault hget)

/-- The ways that a chain goes, by what its first id resolves to. -/
theorem resolve_eq_error_iff :
    g.resolve id = .error fault ↔
      (∃ n, g.BreaksAt id n fault) ∨ g.Revisits id ∧ fault = ⟨id, .endlessReference⟩ := by
  rw [← chainEnds_error_iff_breaksAt]
  by_cases hends : ∃ outcome, g.ChainEnds id outcome
  · obtain ⟨outcome, hends⟩ := hends
    have hnot : ¬ g.Revisits id := hends.not_revisits
    rw [hends.resolve_eq]
    constructor
    · rintro rfl
      exact .inl hends
    · rintro (h | ⟨h, -⟩)
      · exact hends.unique h
      · exact absurd h hnot
  · rw [resolve_eq_endless hends]
    constructor
    · intro h
      exact .inr ⟨revisits_of_not_chainEnds hends, (Except.error.inj h).symm⟩
    · rintro (h | ⟨-, rfl⟩)
      · exact absurd ⟨_, h⟩ hends
      · rfl

/-- What an id resolves to is told by the chain of references that begins there. The chase, which
keeps the references that it has followed, ends within one round more than the graph has slots, and
over fewer rounds it yields the same or nothing. It finds a node with its body exactly if the chain
comes to the node and that is its body. It reports the first id without a pattern exactly if the
chain breaks off there. It reports an endless reference, that of the id asked for, exactly if the
chain comes back to some node. A node that is found resolves to itself, and all ids on the chain
resolve to it. -/
theorem resolve_follows_chain (g : Graph) (id : NodeId) :
    ((∀ rounds, g.size < rounds → g.chaseFrom rounds id = some (g.resolve id)) ∧
      ∀ rounds outcome, g.chaseFrom rounds id = some outcome → outcome = g.resolve id) ∧
    (∀ target shape, g.resolve id = .ok (target, shape) ↔
      (∃ n, g.chainAt id n = some target) ∧ g.get target = .ok (.body shape)) ∧
    (∀ fault, g.resolve id = .error fault ∧ fault.Dangling ↔ ∃ n, g.BreaksAt id n fault) ∧
    (∀ fault, g.resolve id = .error fault ∧ fault.defect.kind = .unguardedCycle ↔
      g.Revisits id ∧ fault = ⟨id, .endlessReference⟩) ∧
    ∀ target shape, g.resolve id = .ok (target, shape) →
      g.resolve target = .ok (target, shape) ∧
        ∀ n node, g.chainAt id n = some node → g.resolve node = .ok (target, shape) := by
  have hdangling {n : Nat} {fault : Fault} (h : g.BreaksAt id n fault) : fault.Dangling :=
    (chainEnds_error_iff_breaksAt.2 ⟨n, h⟩).dangling
  refine ⟨⟨fun rounds hrounds ↦ chaseFrom_eq hrounds id, fun rounds outcome ↦
    eq_resolve_of_chaseFrom⟩, ?_, ?_, ?_, ?_⟩
  case refine_1 =>
    intro target shape
    rw [resolve_eq_ok_iff, standsFor_iff_chainAt]
  case refine_2 =>
    intro fault
    rw [resolve_eq_error_iff]
    constructor
    · rintro ⟨hbreaks | ⟨-, rfl⟩, hfault⟩
      · exact hbreaks
      · rcases hfault with hkind | hkind <;> cases hkind
    · rintro ⟨n, hbreaks⟩
      exact ⟨.inl ⟨n, hbreaks⟩, hdangling hbreaks⟩
  case refine_3 =>
    intro fault
    rw [resolve_eq_error_iff]
    constructor
    · rintro ⟨⟨n, hbreaks⟩ | hrevisits, hkind⟩
      · rcases hdangling hbreaks with hkind' | hkind' <;> rw [hkind'] at hkind <;> cases hkind
      · exact hrevisits
    · rintro ⟨hrevisits, rfl⟩
      exact ⟨.inr ⟨hrevisits, rfl⟩, rfl⟩
  case refine_4 =>
    intro target shape hresolve
    have hstands : g.StandsFor id target shape := resolve_eq_ok_iff.1 hresolve
    refine ⟨hstands.self.resolve_eq, fun n node hn ↦ ?_⟩
    exact ((chainEnds_iff_of_chainAt hn).1 hstands).resolve_eq

/-- A reference into a loop that it is not part of, a reference to a body, and one to an id that was
reserved and never filled. -/
def tangle : Graph :=
  ⟨#[some (.cyclic ⟨1⟩), some (.cyclic ⟨2⟩), some (.cyclic ⟨1⟩), some (.cyclic ⟨4⟩),
    some (.body .anything), some (.cyclic ⟨6⟩), none]⟩

/-- The loop is reported at the id that leads into it, and the empty slot at its own. -/
theorem resolve_follows_chain_tangle :
    tangle.chaseFrom 8 ⟨0⟩ = some (.error ⟨⟨0⟩, .endlessReference⟩) ∧
      tangle.resolve ⟨4⟩ = .ok (⟨4⟩, .anything) ∧
      tangle.resolve ⟨5⟩ = .error ⟨⟨6⟩, .unfilledSlot⟩ := by
  obtain ⟨⟨hends, -⟩, -, -, hrevisits, -⟩ := resolve_follows_chain tangle ⟨0⟩
  obtain ⟨-, hfound, -, -, hsame⟩ := resolve_follows_chain tangle ⟨3⟩
  obtain ⟨-, -, hbreaks, -, -⟩ := resolve_follows_chain tangle ⟨5⟩
  refine ⟨?_, ?_, ?_⟩
  · rw [hends 8 (by decide), ((hrevisits _).2 ⟨⟨1, 3, by decide, ⟨1⟩, rfl, rfl⟩, rfl⟩).1]
  · exact (hsame ⟨4⟩ .anything ((hfound ⟨4⟩ .anything).2 ⟨⟨1, rfl⟩, rfl⟩)).2 1 ⟨4⟩ rfl
  · refine ((hbreaks _).2 ⟨1, ⟨⟨6⟩, rfl, rfl⟩, ?_, ?_⟩).1
    · intro i hi
      obtain rfl : i = 0 := by omega
      exact ⟨⟨5⟩, _, rfl, rfl⟩
    · intro i j hij hj
      obtain ⟨rfl, rfl⟩ : i = 0 ∧ j = 1 := by omega
      decide

end Graph

end JsonPattern
