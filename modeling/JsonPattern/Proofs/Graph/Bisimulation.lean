import JsonPattern.Proofs.Graph.Renaming
import JsonPattern.Proofs.Validator.Bisimulation

/-!
# Bisimilar graphs

Two graphs are bisimilar from their roots on if the roots stand for related nodes, and related
nodes have the same body, up to references that stand for related nodes again. Neither the numbers
of nodes nor the cycles need to agree: a node may be related to several others, as a shared node is
to its copies and a node on a cycle to those of the unrolled cycle.
-/

namespace JsonPattern

namespace Graph

/-- From their roots on, two graphs are bisimilar along a relation of their nodes. Literals, types
and sources of regular expressions are the same in related bodies, and so are the lists of clauses
and alternatives, in their shape and in the names of members. -/
structure Bisimulation (g g' : Graph) (root root' : NodeId) (R : NodeId → NodeId → Prop) :
    Prop where
  /-- The roots stand for related nodes. -/
  roots : R (g.resolved root) (g'.resolved root')
  /-- The bodies of related nodes differ in references to related nodes only. -/
  body : ∀ id ∈ g.bodies root, ∀ id' ∈ g'.bodies root', R id id' → ∀ shape shape',
    g.get id = .ok (.body shape) → g'.get id' = .ok (.body shape') →
      shape.Relates (fun ref ref' ↦ R (g.resolved ref) (g'.resolved ref')) shape'

/-- The leaves below related disjunctions, each as often as it is met, repeat a node at the same
pairs of positions. -/
def RepeatAlike (g g' : Graph) (E : Engine) (root root' : NodeId) (R : NodeId → NodeId → Prop) :
    Prop :=
  ∀ id ∈ g.bodies root, ∀ id' ∈ g'.bodies root', R id id' → ∀ alternatives others,
    (g.table E).check id = .oneOf alternatives → (g'.table E).check id' = .oneOf others →
      SameRepeats ((g.table E).leaves alternatives) ((g'.table E).leaves others)

variable {g g' : Graph} {E : Engine} {image : NodeId → NodeId} {root root' : NodeId}

/-- A graph that folds into another one is bisimilar to it, where everything that its root leads to
stands for a node. -/
theorem Folds.bisimulation (h : g.Folds g' image root)
    (hroot : Relation.ReflTransGen g'.Links root' (image root))
    (hstands : ∀ id, g.Reaches root id → ∃ target shape, g.StandsFor id target shape) :
    g.Bisimulation g' root root' fun id id' ↦ id' = image id := by
  have hresolved {id id' : NodeId} (hreach : g.Reaches root id)
      (hlinks : Relation.ReflTransGen g'.Links id' (image id)) :
      g'.resolved id' = image (g.resolved id) := by
    obtain ⟨target, shape, hstands⟩ := hstands id hreach
    obtain ⟨shape', hstands'⟩ := h.exists_standsFor hreach hstands
    rw [(hstands'.of_links hlinks).resolved_eq, hstands.resolved_eq]
  refine ⟨hresolved .refl hroot, ?_⟩
  rintro id ⟨hreach, -⟩ _ - rfl shape other hget hget'
  obtain ⟨shape', hother, hshape⟩ := h.body id hreach shape hget
  obtain rfl : shape' = other := by simpa [hget'] using hother.symm
  exact hshape.mono fun ref _ href hlinks ↦ hresolved (hreach.tail ⟨_, hget, href⟩) hlinks

end Graph

end JsonPattern
