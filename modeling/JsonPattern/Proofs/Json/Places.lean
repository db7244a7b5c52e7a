import JsonPattern.Path
import JsonPattern.Proofs.Json.Reordering

/-!
# Places of a value

A path is followed from the root of a value by its steps: a name leads into the member of that name,
an index into the item at that position, and no other step leads anywhere. Each step that leads
somewhere leaves a container, so a path that ends at a place is no longer than the value is deep.
-/

namespace JsonPattern

namespace Json

/-- The part that a step leads into. -/
def child? : Json → Step → Option Json
  | .object members, .name label => members.lookup label
  | .array items, .index i => items[i]?
  | _, _ => none

/-- The place that several steps lead to, one after the other. -/
def walk? : Json → List Step → Option Json
  | value, [] => some value
  | value, step :: steps => do
    let part ← value.child? step
    part.walk? steps

variable {value part : Json} {step : Step} {steps : List Step}

theorem walk?_append (value : Json) (steps steps' : List Step) :
    value.walk? (steps ++ steps') = (value.walk? steps).bind fun part ↦ part.walk? steps' := by
  induction steps generalizing value with
  | nil => rfl
  | cons step steps ih =>
    rw [List.cons_append, walk?, walk?]
    cases value.child? step with
    | none => rfl
    | some part => exact ih part

/-- One step more. -/
theorem walk?_concat {inner : Json} (h : value.walk? steps = some part)
    (hchild : part.child? step = some inner) : value.walk? (steps ++ [step]) = some inner := by
  rw [walk?_append, h]
  simp only [Option.bind_some, walk?, hchild, Option.bind_eq_bind]

/-- What a step leads into is a part of a container. -/
theorem child?_cases (h : value.child? step = some part) :
    (∃ items, value = .array items ∧ part ∈ items) ∨
      ∃ members name, value = .object members ∧ (name, part) ∈ members := by
  cases value with
  | array items =>
    cases step with
    | index i => exact .inl ⟨items, rfl, List.mem_of_getElem? h⟩
    | name => cases h
  | object members =>
    cases step with
    | name label => exact .inr ⟨members, label, rfl, Members.mem_of_lookup h⟩
    | index => cases h
  | null | bool | integer | float | string => cases h

theorem depth_lt_of_child? (h : value.child? step = some part) : part.depth < value.depth := by
  rcases child?_cases h with ⟨items, rfl, hpart⟩ | ⟨members, name, rfl, hpart⟩
  · exact Nat.lt_succ_of_le (depth_le_itemsDepth hpart)
  · exact Nat.lt_succ_of_le (depth_le_membersDepth hpart)

/-- Steps that end at a place are no more than the levels that are left behind. -/
theorem length_add_depth_le_of_walk? (h : value.walk? steps = some part) :
    steps.length + part.depth ≤ value.depth := by
  induction steps generalizing value with
  | nil =>
    obtain rfl := Option.some.inj h
    exact (Nat.zero_add _).le
  | cons step steps ih =>
    obtain ⟨next, hnext, h⟩ := Option.bind_eq_some_iff.1 h
    have hdepth := depth_lt_of_child? hnext
    have hrest := ih h
    rw [List.length_cons]
    omega

theorem DistinctNames.child? (h : value.DistinctNames) (hchild : value.child? step = some part) :
    part.DistinctNames := by
  rcases child?_cases hchild with ⟨items, rfl, hpart⟩ | ⟨members, name, rfl, hpart⟩
  · exact itemsDistinctNames_iff.1 h part hpart
  · exact membersDistinctNames_iff.1 h.2 (name, part) hpart

theorem DistinctNames.walk? (h : value.DistinctNames) (hwalk : value.walk? steps = some part) :
    part.DistinctNames := by
  induction steps generalizing value with
  | nil => exact Option.some.inj hwalk ▸ h
  | cons step steps ih =>
    obtain ⟨next, hnext, hwalk⟩ := Option.bind_eq_some_iff.1 hwalk
    exact ih (h.child? hnext) hwalk

/-! ### Values inside another one -/

/-- If the whole stands at the path `base`, the value stands at the path. -/
def StandsAt (whole : Json) (base path : Path) (value : Json) : Prop :=
  ∃ steps, path.steps = base.steps ++ steps ∧ whole.walk? steps = some value

namespace StandsAt

variable {whole : Json} {base path : Path}

theorem self (whole : Json) (base : Path) : whole.StandsAt base base whole :=
  ⟨[], (List.append_nil _).symm, rfl⟩

theorem child (h : whole.StandsAt base path value) (hchild : value.child? step = some part) :
    whole.StandsAt base (path.child step) part := by
  obtain ⟨steps, hpath, hwalk⟩ := h
  refine ⟨steps ++ [step], ?_, walk?_concat hwalk hchild⟩
  rw [← List.append_assoc, ← hpath]
  rfl

theorem item {items : List Json} {i : Nat} (h : whole.StandsAt base path (.array items))
    (hitem : items[i]? = some part) : whole.StandsAt base (path.item i) part :=
  have hchild : (Json.array items).child? (.index i) = some part := hitem
  h.child hchild

theorem names_nodup {members : Members} (h : whole.StandsAt base path (.object members))
    (hdistinct : whole.DistinctNames) : members.names.Nodup := by
  obtain ⟨steps, -, hwalk⟩ := h
  exact (hdistinct.walk? hwalk).1

theorem member {members : Members} (h : whole.StandsAt base path (.object members))
    (hdistinct : whole.DistinctNames) {name : String} (hmember : (name, part) ∈ members) :
    whole.StandsAt base (path.member name) part :=
  have hchild : (Json.object members).child? (.name name) = some part :=
    Members.lookup_of_mem (h.names_nodup hdistinct) hmember
  h.child hchild

end StandsAt

end Json

end JsonPattern
