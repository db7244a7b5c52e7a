import JsonPattern.Proofs.Graph.Table

/-!
# Graphs with another body

Where the body of a node is exchanged, references are resolved as before, and what stood for the old
body stands for the new one.
-/

namespace JsonPattern

namespace Graph

/-- The graph with another body in place of that of a node. -/
def withBody (g : Graph) (owner : NodeId) (body : Shape NodeId) : Graph :=
  ⟨g.slots.setIfInBounds owner.index (some (.body body))⟩

variable {g : Graph} {E : Engine} {owner : NodeId} {shape body : Shape NodeId}

@[simp]
theorem size_withBody : (g.withBody owner body).size = g.size := by
  simp [withBody, size]

theorem get_withBody_of_ne {id : NodeId} (hne : id ≠ owner) :
    (g.withBody owner body).get id = g.get id := by
  have hindex : owner.index ≠ id.index := fun heq ↦ hne (congrArg NodeId.mk heq.symm)
  rw [get, get, withBody, Array.getElem?_setIfInBounds_ne hindex]

variable (hget : g.get owner = .ok (.body shape))

include hget

theorem get_withBody_self : (g.withBody owner body).get owner = .ok (.body body) := by
  have hlt : owner.index < g.slots.size := index_lt_of_get hget
  rw [get, withBody, Array.getElem?_setIfInBounds_self_of_lt hlt]

/-- Following references comes to the same nodes. -/
theorem follow_withBody (origin : NodeId) (budget : Nat) (id : NodeId) :
    (g.withBody owner body).follow origin budget id = (g.follow origin budget id).map
      fun result ↦ (result.1, if result.1 = owner then body else result.2) := by
  induction budget generalizing id with
  | zero => rfl
  | succ budget ih =>
    rw [follow, follow]
    by_cases heq : id = owner
    · obtain rfl := heq
      rw [get_withBody_self hget, hget]
      simp [Except.map]
    · rw [get_withBody_of_ne heq]
      rcases g.get id with fault | ⟨shape⟩ | ⟨target⟩
      · rfl
      · simp [Except.map, heq]
      · exact ih target

theorem resolve_withBody (id : NodeId) : (g.withBody owner body).resolve id =
    (g.resolve id).map fun result ↦ (result.1, if result.1 = owner then body else result.2) := by
  rw [resolve, resolve, size_withBody, follow_withBody hget]

theorem resolved_withBody : (g.withBody owner body).resolved = g.resolved := by
  funext id
  rw [resolved, resolved, resolve_withBody hget]
  cases g.resolve id <;> rfl

theorem shape_withBody (id : NodeId) :
    (g.withBody owner body).shape id = if g.resolved id = owner then body else g.shape id := by
  rw [Graph.shape, Graph.shape, resolved, resolve_withBody hget]
  cases hresolve : g.resolve id with
  | error fault =>
    have hne : id ≠ owner := by
      rintro rfl
      rw [resolve_eq_ok_iff.2 (ChainEnds.body hget)] at hresolve
      cases hresolve
    exact (if_neg hne).symm
  | ok result => rfl

/-- Only the check of the body exchanged is another one. -/
theorem check_withBody (id : NodeId) : ((g.withBody owner body).table E).check id =
    if g.resolved id = owner then ((body.check? E).getD .anything).map g.resolved
    else (g.table E).check id := by
  rw [table_check, table_check, shape_withBody hget, resolved_withBody hget]
  split <;> rfl

end Graph

end JsonPattern
