import JsonPattern.Proofs.Graph.Outline

/-!
# Graphs under other names

Two graphs are the same from their roots on, up to the names of nodes, if the nodes with bodies that
the one root leads to have images in the other graph, and references stand for a node and its image,
or both for none. Through how many cyclic references they do so does not matter.

`Graph.Copies` is the case of a graph that is copied node by node, with other ids and among other
nodes, where a reference may be replaced by a cyclic reference to the same node. `Graph.Folds` is
the same for several nodes with one image, as copies of a shared node have.
-/

namespace JsonPattern

namespace Graph

/-- Ids of two graphs stand for a node and its image, or both for none. -/
def SameTarget (g g' : Graph) (image : NodeId → NodeId) (id id' : NodeId) : Prop :=
  (∃ target shape shape', g.StandsFor id target shape ∧ g'.StandsFor id' (image target) shape') ∨
    ((¬ ∃ target shape, g.StandsFor id target shape) ∧
      ¬ ∃ target shape, g'.StandsFor id' target shape)

/-- From their roots on, two graphs are the same up to the names of nodes. -/
structure Renaming (g g' : Graph) (image : NodeId → NodeId) (root root' : NodeId) : Prop where
  /-- Different nodes have different names. -/
  injOn : Set.InjOn image (g.bodies root)
  /-- The roots stand for a node and its image. -/
  roots : g.SameTarget g' image root root'
  /-- The image of a node has the body of the node, with other references to the same. -/
  body : ∀ target ∈ g.bodies root, ∀ shape, g.get target = .ok (.body shape) →
    ∃ shape', g'.get (image target) = .ok (.body shape') ∧
      shape.Relates (g.SameTarget g' image) shape'

variable {g g' : Graph} {image : NodeId → NodeId} {root root' : NodeId}

/-- A graph under other names mirrors the graph. -/
theorem Renaming.mirror (h : g.Renaming g' image root root') :
    g.Mirror g' image (g.bodies root)
      (fun id id' ↦ g.Reaches root id ∧ g.SameTarget g' image id id') (fun _ ↦ False)
      fun _ _ ↦ True := by
  constructor
  case injOn => exact h.injOn
  case stands =>
    rintro id id' ⟨hreach, hsame⟩ target shape hstands
    rcases hsame with ⟨other, _, shape', hstands', himage⟩ | ⟨hnone, -⟩
    · obtain ⟨rfl, -⟩ := hstands.unique hstands'
      exact ⟨⟨hreach.trans hstands.reaches, shape, hstands.get_target⟩, shape', himage⟩
    · exact absurd ⟨target, shape, hstands⟩ hnone
  case astray =>
    rintro id id' ⟨-, hsame⟩ fault hresolve
    rcases hsame with ⟨target, shape, _, hstands, -⟩ | ⟨-, hnone⟩
    · rw [hstands.resolve_eq] at hresolve
      cases hresolve
    · rcases hresolve' : g'.resolve id' with fault' | ⟨target, shape⟩
      · exact .inr ⟨fault', rfl, trivial⟩
      · exact absurd ⟨target, shape, resolve_eq_ok_iff.1 hresolve'⟩ hnone
  case body =>
    intro target hmem shape hget
    obtain ⟨shape', hget', hshape⟩ := h.body target hmem shape hget
    exact ⟨shape', hget', hshape.mono fun id _ hid hsame ↦ ⟨hmem.1.tail ⟨_, hget, hid⟩, hsame⟩⟩
  case same_rename => exact fun _ ↦ trivial

/-! ### Folding -/

/-- A graph folds into another one along a function on ids if every node that the root leads to has
the pattern of its image, where a reference may have become a chain of cyclic references. Several
nodes may have the same image: shared nodes of the other graph may have been copied, and cycles may
have been unrolled. -/
structure Folds (g g' : Graph) (image : NodeId → NodeId) (root : NodeId) : Prop where
  /-- A body has the same body for its image. -/
  body : ∀ id, g.Reaches root id → ∀ shape, g.get id = .ok (.body shape) →
    ∃ shape', g'.get (image id) = .ok (.body shape') ∧
      shape.Relates (fun ref ref' ↦ Relation.ReflTransGen g'.Links ref' (image ref)) shape'
  /-- A cyclic reference is a chain of them. -/
  cyclic : ∀ id, g.Reaches root id → ∀ next, g.Links id next →
    Relation.ReflTransGen g'.Links (image id) (image next)

/-- What the end of a chain of cyclic references stands for, its beginning stands for. -/
theorem StandsFor.of_links {id next target : NodeId} {shape : Shape NodeId}
    (h : g.StandsFor next target shape) (hlinks : Relation.ReflTransGen g.Links id next) :
    g.StandsFor id target shape := by
  induction hlinks using Relation.ReflTransGen.head_induction_on with
  | refl => exact h
  | head hlink _ ih => exact .cyclic hlink ih

/-- The image of an id stands for the image of what the id stands for. -/
theorem Folds.exists_standsFor (h : g.Folds g' image root) {id : NodeId}
    (hreach : g.Reaches root id) {target : NodeId} {shape : Shape NodeId}
    (hstands : g.StandsFor id target shape) :
    ∃ shape', g'.StandsFor (image id) (image target) shape' := by
  unfold StandsFor at hstands
  generalize he : (Except.ok (target, shape) : Except Fault (NodeId × Shape NodeId)) = outcome
    at hstands
  induction hstands with
  | body hget =>
    cases he
    obtain ⟨shape', hget', -⟩ := h.body _ hreach _ hget
    exact ⟨shape', .body hget'⟩
  | fault hget => cases he
  | @cyclic id next _ hget rest ih =>
    obtain ⟨shape', hstands'⟩ := ih (hreach.tail ⟨_, hget, List.mem_cons_self⟩) he
    exact ⟨shape', hstands'.of_links (h.cyclic id hreach next hget)⟩

/-! ### Copies -/

/-- An id is the image of another one, or a cyclic reference to the image. -/
def Alias (g' : Graph) (image : NodeId → NodeId) (id id' : NodeId) : Prop :=
  id' = image id ∨ g'.Links id' (image id)

/-- A graph holds copies of the nodes that a root leads to, in which references may have become
cyclic references. -/
structure Copies (g g' : Graph) (image : NodeId → NodeId) (root : NodeId) : Prop where
  /-- Different nodes have different copies. -/
  injOn : Set.InjOn image (g.bodies root)
  /-- A body is copied. -/
  body : ∀ id, g.Reaches root id → ∀ shape, g.get id = .ok (.body shape) →
    ∃ shape', g'.get (image id) = .ok (.body shape') ∧ shape.Relates (g'.Alias image) shape'
  /-- A cyclic reference is copied. -/
  cyclic : ∀ id, g.Reaches root id → ∀ next, g.Links id next →
    ∃ next', g'.Links (image id) next' ∧ g'.Alias image next next'
  /-- An id without a pattern becomes one. -/
  fault : ∀ id, g.Reaches root id → ∀ fault, g.get id = .error fault →
    ∃ fault', g'.get (image id) = .error fault'

theorem Alias.links {id id' : NodeId} (h : g'.Alias image id id') :
    Relation.ReflTransGen g'.Links id' (image id) := by
  rcases h with rfl | hlink
  · exact .refl
  · exact .single hlink

/-- An alias of a node stands for what the node stands for. -/
theorem Alias.standsFor {id id' target : NodeId} {shape : Shape NodeId}
    (h : g'.Alias image id id') (hstands : g'.StandsFor (image id) target shape) :
    g'.StandsFor id' target shape :=
  hstands.of_links h.links

namespace Copies

variable (h : g.Copies g' image root) {id id' : NodeId}

include h

theorem toFolds : g.Folds g' image root where
  body id hreach shape hget := by
    obtain ⟨shape', hget', hshape⟩ := h.body id hreach shape hget
    exact ⟨shape', hget', hshape.mono fun _ _ _ halias ↦ halias.links⟩
  cyclic id hreach next hlink := by
    obtain ⟨next', hlink', halias⟩ := h.cyclic id hreach next hlink
    exact .head hlink' halias.links

/-- An id stands for a node if an alias of its copy does. -/
theorem exists_standsFor_of_alias (hreach : g.Reaches root id) (halias : g'.Alias image id id')
    {target : NodeId} {shape : Shape NodeId} (hstands : g'.StandsFor id' target shape) :
    ∃ target shape, g.StandsFor id target shape := by
  -- The induction is on the chain from the alias, which may come to the copy before it follows
  -- what the copy refers to.
  have hcopy {id : NodeId} (hreach : g.Reaches root id) {pattern : Pattern}
      (hget' : g'.get (image id) = .ok pattern) :
      (∃ target shape, g.StandsFor id target shape) ∨
        ∃ next next', g.Links id next ∧ pattern = .cyclic next' ∧ g'.Alias image next next' := by
    rcases hget : g.get id with fault | ⟨shape⟩ | ⟨next⟩
    · obtain ⟨fault', hfault⟩ := h.fault id hreach fault hget
      rw [hfault] at hget'
      cases hget'
    · exact .inl ⟨id, shape, .body hget⟩
    · obtain ⟨next', hlink, halias⟩ := h.cyclic id hreach next hget
      exact .inr ⟨next, next', hget, Except.ok.inj (hget'.symm.trans hlink), halias⟩
  unfold StandsFor at hstands
  generalize he : (Except.ok (target, shape) : Except Fault (NodeId × Shape NodeId)) = outcome
    at hstands
  induction hstands generalizing id with
  | fault => cases he
  | body hget' =>
    rcases halias with rfl | hlink
    · rcases hcopy hreach hget' with hstands | ⟨_, _, _, hpattern, -⟩
      · exact hstands
      · cases hpattern
    · rw [Links, hget'] at hlink
      cases hlink
  | @cyclic _ next'' _ hget' rest ih =>
    rcases halias with rfl | hlink
    · rcases hcopy hreach hget' with hstands | ⟨next, _, hlink, hpattern, halias⟩
      · exact hstands
      · cases hpattern
        obtain ⟨target, shape, hstands⟩ := ih (hreach.tail ⟨_, hlink, List.mem_cons_self⟩) halias he
        exact ⟨target, shape, .cyclic hlink hstands⟩
    · exact ih hreach (.inl (hlink.unique hget').symm) he

theorem sameTarget (hreach : g.Reaches root id) (halias : g'.Alias image id id') :
    g.SameTarget g' image id id' := by
  by_cases hstands : ∃ target shape, g.StandsFor id target shape
  · obtain ⟨target, shape, hstands⟩ := hstands
    obtain ⟨shape', hstands'⟩ := h.toFolds.exists_standsFor hreach hstands
    exact .inl ⟨target, shape, shape', hstands, halias.standsFor hstands'⟩
  · exact .inr ⟨hstands, fun ⟨_, _, hstands'⟩ ↦
      hstands (h.exists_standsFor_of_alias hreach halias hstands')⟩

/-- Copies are the graph under other names. -/
theorem toRenaming : g.Renaming g' image root (image root) := by
  refine ⟨h.injOn, h.sameTarget .refl (.inl rfl), ?_⟩
  rintro target ⟨hreach, -⟩ shape hget
  obtain ⟨shape', hget', hshape⟩ := h.body target hreach shape hget
  exact ⟨shape', hget', hshape.mono fun id _ hid halias ↦
    h.sameTarget (hreach.tail ⟨_, hget, hid⟩) halias⟩

end Copies

end Graph

end JsonPattern
