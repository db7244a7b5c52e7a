import JsonPattern.Proofs.Compiled.Sharing
import JsonPattern.Proofs.Graph.WithBody
import JsonPattern.Proofs.Validator.Inlining
import JsonPattern.Regex.Search

/-!
# Compiled inlining

Instead of flattening an object, its clauses can be written out in place. Values then meet the same
failures, unless the object has optional groups only and it is asked what opens the list of clauses:
flattened, such an object closes the list to what follows, and written out it does not.
-/

namespace JsonPattern

namespace Graph

variable {g : Graph} {E : Engine} {root owner target : NodeId} {place : Place NodeId}
  {clauses : List (Clause NodeId)}

/-- The clauses of an object that is flattened at a place can be written out. -/
inductive Inlinable (g : Graph) (E : Engine) (root owner : NodeId) (place : Place NodeId)
    (clauses : List (Clause NodeId)) : Prop
  /-- A clause that is not an optional group stands before the place in its list. -/
  | behind (clause : Clause NodeId) (hmem : clause ∈ place.before)
      (hclause : clause.isOptional = false)
  /-- A clause of the object is not an optional group. -/
  | closing (clause : Clause NodeId) (hmem : clause ∈ clauses) (hclause : clause.isOptional = false)
  /-- What follows the place in its list cannot be opened by any name. -/
  | last (h : (g.table E).firstNames (.group (groupMap g.resolved place.after)) = ∅)
  /-- It is never asked what opens the list: the place is one between the clauses of the owner
  itself, and it is not asked what opens the owner. -/
  | apart (hplace : owner ∈ g.bodies root → ∃ before after, place = .here before after)
      (h : ¬ (g.table E).Opened (g.bodies root) owner)

/-- It is not asked what opens an object that is no alternative and is not flattened. -/
theorem Inlinable.of_unguarded {V : Validator} (hV : g.compileWith E root = .ok V)
    (hplace : owner ∈ g.bodies root → ∃ before after, place = .here before after)
    (howner : ∀ id ∈ g.bodies root, owner ∉ g.unguarded id) :
    g.Inlinable E root owner place clauses := by
  obtain ⟨rank, hranked, -⟩ := exists_agrees_root hV
  refine .apart hplace fun hopened ↦ ?_
  obtain ⟨id, hid, hmem⟩ := hopened.exists_unguarded hranked
  obtain ⟨shape, hget⟩ := hid.2
  refine howner id hid ?_
  rw [unguarded, shape_eq_of_get hget]
  exact (refs_check_subset hget).2 hmem

/-- The graph with the clauses written out, as a table. -/
theorem inlines_withBody (root : NodeId)
    (hget : g.get owner = .ok (.body (.object (place.fill [.flatten target]))))
    (htarget : g.shape target = .object clauses) :
    (g.table E).Inlines ((g.withBody owner (.object (place.fill clauses))).table E) (g.bodies root)
      owner (g.resolved target) (place.map g.resolved) (groupMap g.resolved clauses) := by
  have howner : g.resolved owner = owner := resolved_eq_of_get hget
  have hcheck (id : NodeId) (hid : g.resolved id = owner) : (g.table E).check id =
      .object ((place.map g.resolved).fill [.flatten (g.resolved target)]) := by
    rw [← check_resolved, hid, table_check, shape_eq_of_get hget]
    exact congrArg Check.object place.groupMap_fill
  have hcheck' (id : NodeId) (hid : g.resolved id = owner) :
      ((g.withBody owner (.object (place.fill clauses))).table E).check id =
        .object ((place.map g.resolved).fill (groupMap g.resolved clauses)) := by
    rw [check_withBody hget, if_pos hid]
    exact congrArg Check.object place.groupMap_fill
  constructor
  case toLooksLike =>
    refine ⟨size_withBody, fun id ↦ ?_⟩
    by_cases hid : g.resolved id = owner
    · exact .inr ⟨_, _, hcheck id hid, hcheck' id hid⟩
    · exact .inl (by rw [check_withBody hget, if_neg hid])
  case check_eq =>
    rintro id ⟨-, shape, hshape⟩ hne
    rw [check_withBody hget, resolved_eq_of_get hshape, if_neg hne]
  case check_owner => exact hcheck owner howner
  case check_owner' => exact hcheck' owner howner
  case check_target =>
    rw [check_resolved, table_check, htarget]
    rfl

/-- Letters with a date and a seal, as the sender likes. -/
def letter : Graph :=
  ⟨#[some (.body (.object [.flatten ⟨1⟩, .optional [.named "seal" ⟨2⟩]])),
    some (.body (.object [.optional [.named "date" ⟨2⟩]])), some (.body (.type .string))]⟩

/-- An object that is put to choice, and that flattens another one at a place in its list. -/
def offered (place : Place NodeId) (clauses : List (Clause NodeId)) : Graph :=
  ⟨#[some (.body (.oneOf [⟨1⟩, ⟨2⟩])), some (.body (.object (place.fill [.flatten ⟨3⟩]))),
    some (.body (.object [.named "note" ⟨4⟩])), some (.body (.object clauses)),
    some (.body (.type .string))]⟩

/-- A date behind the addressee; a date that closes the group of the seal; and, in that group, the
place behind the seal, where nothing follows. -/
def offers : List (Place NodeId × List (Clause NodeId)) :=
  [(.here [.named "to" ⟨4⟩] [.named "seal" ⟨4⟩], [.optional [.named "date" ⟨4⟩]]),
    (.optional [] (.here [] [.named "seal" ⟨4⟩]) [], [.named "date" ⟨4⟩]),
    (.optional [] (.here [.optional [.named "seal" ⟨4⟩]] []) [], [.optional [.named "date" ⟨4⟩]])]

/-- An optional group of a flattened object and a named member. -/
def postscript : Graph :=
  ⟨#[some (.body (.object [.optional [.flatten ⟨1⟩, .named "b" ⟨2⟩]])),
    some (.body (.object [.optional [.named "a" ⟨2⟩]])), some (.body .anything)]⟩

end Graph

end JsonPattern
