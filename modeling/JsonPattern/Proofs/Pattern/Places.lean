import JsonPattern.Proofs.Pattern.References

/-!
# Places in lists of clauses

A place is a list of clauses with a gap, in the list itself or at any depth in its optional groups
and alternations. The clauses that fill the gap stand in line with those around it.
-/

namespace JsonPattern

/-- A list of clauses with a gap. -/
inductive Place (ρ : Type)
  /-- A gap between the clauses of the list itself. -/
  | here (before after : List (Clause ρ))
  /-- A gap in an optional group. -/
  | optional (before : List (Clause ρ)) (inner : Place ρ) (after : List (Clause ρ))
  /-- A gap in a group of an alternation. -/
  | oneOf (before : List (Clause ρ)) (earlier : List (List (Clause ρ))) (inner : Place ρ)
      (later : List (List (Clause ρ))) (after : List (Clause ρ))

namespace Place

variable {ρ σ : Type}

/-- Fills the gap with clauses. -/
def fill : Place ρ → List (Clause ρ) → List (Clause ρ)
  | here before after, clauses => before ++ clauses ++ after
  | optional before inner after, clauses => before ++ [.optional (inner.fill clauses)] ++ after
  | oneOf before earlier inner later after, clauses =>
    before ++ [.oneOf (earlier ++ inner.fill clauses :: later)] ++ after

/-- The clauses before the gap, in the list or group to which it belongs. -/
def before : Place ρ → List (Clause ρ)
  | here before _ => before
  | optional _ inner _ => inner.before
  | oneOf _ _ inner _ _ => inner.before

/-- The clauses after the gap, in the list or group to which it belongs. -/
def after : Place ρ → List (Clause ρ)
  | here _ after => after
  | optional _ inner _ => inner.after
  | oneOf _ _ inner _ _ => inner.after

/-- Replaces every reference. -/
def map (f : ρ → σ) : Place ρ → Place σ
  | here before after => .here (groupMap f before) (groupMap f after)
  | optional before inner after =>
    .optional (groupMap f before) (inner.map f) (groupMap f after)
  | oneOf before earlier inner later after =>
    .oneOf (groupMap f before) (groupsMap f earlier) (inner.map f) (groupsMap f later)
      (groupMap f after)

variable {f : ρ → σ} {clauses : List (Clause ρ)}

theorem groupMap_fill (place : Place ρ) :
    groupMap f (place.fill clauses) = (place.map f).fill (groupMap f clauses) := by
  induction place with
  | here before after => simp only [fill, map, groupMap_eq_map, List.map_append]
  | optional before inner after ih =>
    rw [fill, map, fill, ← ih]
    simp only [groupMap_eq_map, List.map_append, List.map_cons, List.map_nil, Clause.map]
  | oneOf before earlier inner later after ih =>
    rw [fill, map, fill, ← ih]
    simp only [groupMap_eq_map, groupsMap_eq_map, List.map_append, List.map_cons, List.map_nil,
      Clause.map]

@[simp]
theorem before_map (place : Place ρ) : (place.map f).before = groupMap f place.before := by
  induction place with
  | here before after => rfl
  | optional before inner after ih => exact ih
  | oneOf before earlier inner later after ih => exact ih

@[simp]
theorem after_map (place : Place ρ) : (place.map f).after = groupMap f place.after := by
  induction place with
  | here before after => rfl
  | optional before inner after ih => exact ih
  | oneOf before earlier inner later after ih => exact ih

/-! ### References -/

/-- A filled list refers to what it refers to without the filling, and to what the filling refers
to. -/
theorem mem_groupRefs_fill {s : ρ} (place : Place ρ) :
    s ∈ groupRefs (place.fill clauses) ↔ s ∈ groupRefs (place.fill []) ∨ s ∈ groupRefs clauses := by
  induction place with
  | here before after =>
    simp only [fill, groupRefs_append, List.mem_append, List.append_nil]
    grind
  | optional before inner after ih =>
    simp only [fill, groupRefs_append, groupRefs, Clause.refs, List.mem_append, ih]
    grind
  | oneOf before earlier inner later after ih =>
    simp only [fill, groupRefs_append, groupsRefs_append, groupRefs, groupsRefs, Clause.refs,
      List.mem_append, ih]
    grind

theorem mem_groupFlattenTargets_fill {t : ρ} (place : Place ρ) :
    t ∈ groupFlattenTargets (place.fill clauses) ↔
      t ∈ groupFlattenTargets (place.fill []) ∨ t ∈ groupFlattenTargets clauses := by
  induction place with
  | here before after =>
    simp only [fill, groupFlattenTargets_append, List.mem_append, List.append_nil]
    grind
  | optional before inner after ih =>
    simp only [fill, groupFlattenTargets_append, groupFlattenTargets, Clause.flattenTargets,
      List.mem_append, ih]
    grind
  | oneOf before earlier inner later after ih =>
    simp only [fill, groupFlattenTargets_append, groupsFlattenTargets_append, groupFlattenTargets,
      groupsFlattenTargets, Clause.flattenTargets, List.mem_append, ih]
    grind

end Place

end JsonPattern
