import JsonPattern.Proofs.Graph.Outline

/-!
# Graphs that grow

A graph changes by adding a node, by reserving an id and by filling a slot that is reserved. No
change touches a pattern that is there already, so a graph that has been changed mirrors what it
was before: where a walk through the old graph does not end at a dangling id, the walk through the
new one is the same.
-/

namespace JsonPattern

/-- A fault of an id without a pattern: it was never handed out, or its slot is reserved. -/
def Fault.Dangling (fault : Fault) : Prop :=
  fault.defect.kind = .unknownPattern ∨ fault.defect.kind = .unfilledSlot

/-- A change of a graph. -/
inductive Edit
  /-- A node is added. -/
  | add (pattern : Pattern)
  /-- An id is reserved. -/
  | reserve
  /-- A slot is filled, if it is reserved. -/
  | fill (id : NodeId) (pattern : Pattern)

namespace Graph

/-- The graph after a change. It stays as it is if a slot cannot be filled. -/
def edit (g : Graph) : Edit → Graph
  | .add pattern => g.add pattern
  | .reserve => g.reserve
  | .fill id pattern =>
    match g.fill id pattern with
    | .ok filled => filled
    | .error _ => g

/-- The graph after changes in turn. -/
def edits (g : Graph) (changes : List Edit) : Graph := changes.foldl edit g

/-- Every pattern of a graph is there in another one. -/
def Extends (g g' : Graph) : Prop := ∀ id pattern, g.get id = .ok pattern → g'.get id = .ok pattern

variable {g g' : Graph}

theorem get_eq_ok_iff {id : NodeId} {pattern : Pattern} :
    g.get id = .ok pattern ↔ g.slots[id.index]? = some (some pattern) := by
  rw [get]
  split <;> simp [*]

/-- An id without a pattern dangles. -/
theorem dangling_of_get {id : NodeId} {fault : Fault} (h : g.get id = .error fault) :
    fault.Dangling := by
  rw [get] at h
  split at h
  · cases h; exact .inl rfl
  · cases h; exact .inr rfl
  · cases h

theorem ChainEnds.dangling {id : NodeId} {fault : Fault} (h : g.ChainEnds id (.error fault)) :
    fault.Dangling := by
  generalize he : (Except.error fault : Except Fault (NodeId × Shape NodeId)) = outcome at h
  induction h with
  | body => cases he
  | fault hget => cases he; exact dangling_of_get hget
  | cyclic hget rest ih => exact ih he

/-- No change touches a pattern. -/
theorem extends_edit (g : Graph) (change : Edit) : g.Extends (g.edit change) := by
  intro id pattern hget
  have hslot := get_eq_ok_iff.1 hget
  have hlt : id.index < g.slots.size := index_lt_of_get hget
  cases change with
  | add | reserve =>
    refine get_eq_ok_iff.2 ?_
    rw [edit, ← hslot]
    exact (Array.getElem?_push_lt hlt).trans (Array.getElem?_eq_getElem hlt).symm
  | fill other body =>
    rw [edit, fill]
    split
    · next filled h =>
      split at h
      · cases h
      · cases h
      · next hreserved =>
        cases h
        refine get_eq_ok_iff.2 ?_
        rw [Array.getElem?_setIfInBounds_ne, hslot]
        intro he
        rw [he, hslot] at hreserved
        cases hreserved
    · exact hget

theorem extends_edits (g : Graph) (changes : List Edit) : g.Extends (g.edits changes) := by
  induction changes generalizing g with
  | nil => exact fun _ _ h ↦ h
  | cons change changes ih =>
    exact fun id pattern h ↦ ih (g.edit change) id pattern (g.extends_edit change id pattern h)

namespace Extends

variable (h : g.Extends g')

include h

theorem standsFor {id target : NodeId} {shape : Shape NodeId}
    (hstands : g.StandsFor id target shape) :
    g'.StandsFor id target shape := by
  unfold StandsFor at hstands ⊢
  generalize he : (Except.ok (target, shape) : Except Fault (NodeId × Shape NodeId)) = outcome
    at hstands
  induction hstands with
  | body hget => cases he; exact .body (h _ _ hget)
  | fault hget => cases he
  | cyclic hget rest ih => exact .cyclic (h _ _ hget) (ih he)

/-- A chain that ends in the larger graph ends in the smaller one, though it may end earlier. -/
theorem exists_chainEnds {id : NodeId} {outcome : Except Fault (NodeId × Shape NodeId)}
    (hends : g'.ChainEnds id outcome) : ∃ outcome, g.ChainEnds id outcome := by
  have hstep (id : NodeId) : (∃ outcome, g.ChainEnds id outcome) ∨
      ∃ next, g.get id = .ok (.cyclic next) ∧ g'.get id = .ok (.cyclic next) := by
    rcases hget : g.get id with fault | ⟨shape⟩ | ⟨next⟩
    · exact .inl ⟨_, .fault hget⟩
    · exact .inl ⟨_, .body hget⟩
    · exact .inr ⟨next, rfl, h _ _ hget⟩
  induction hends with
  | @body id shape hget' | @fault id fault hget' =>
    refine (hstep id).resolve_right ?_
    rintro ⟨next, -, hget⟩
    rw [hget'] at hget
    cases hget
  | @cyclic id next outcome hget' rest ih =>
    rcases hstep id with hends | ⟨next', hold, hget⟩
    · exact hends
    · rw [hget'] at hget
      cases hget
      obtain ⟨outcome, hends⟩ := ih
      exact ⟨outcome, .cyclic hold hends⟩

/-- A graph mirrors what it was before, except for references that dangled. -/
theorem mirror : g.Mirror g' id Set.univ Eq Fault.Dangling Eq := by
  constructor
  case injOn => exact fun _ _ _ _ he ↦ he
  case stands =>
    rintro id _ rfl target shape hstands
    exact ⟨Set.mem_univ _, shape, h.standsFor hstands⟩
  case astray =>
    rintro id _ rfl fault hresolve
    by_cases hends : ∃ outcome, g.ChainEnds id outcome
    · obtain ⟨outcome, hends⟩ := hends
      obtain rfl : outcome = .error fault := hends.resolve_eq.symm.trans hresolve
      exact .inl hends.dangling
    · have hendless := resolve_eq_endless fun ⟨outcome, hends'⟩ ↦ hends (h.exists_chainEnds hends')
      rw [resolve_eq_endless hends] at hresolve
      cases hresolve
      exact .inr ⟨_, hendless, rfl⟩
  case body =>
    intro target _ shape hget
    exact ⟨shape, h _ _ hget, .refl fun _ _ ↦ rfl⟩
  case same_rename =>
    rintro ⟨node, defect⟩
    cases defect <;> rfl

end Extends

end Graph

end JsonPattern
