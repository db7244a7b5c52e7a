import JsonPattern.Proofs.Pattern.References
import JsonPattern.Validator.Check

/-!
# References of checks

The references of a check, and those among them that are followed without descending into the
value.
-/

namespace JsonPattern

namespace Check

variable {ρ σ τ : Type}

/-- The references of a check, in declared order. -/
def refs : Check ρ → List ρ
  | .arrayOf element => [element]
  | .object clauses => groupRefs clauses
  | .oneOf alternatives => alternatives
  | _ => []

/-- The references that are followed without descending into the value. -/
def unguardedRefs : Check ρ → List ρ
  | .object clauses => groupFlattenTargets clauses
  | .oneOf alternatives => alternatives
  | _ => []

theorem map_map (f : ρ → σ) (h : σ → τ) (check : Check ρ) :
    (check.map f).map h = check.map (h ∘ f) := by
  cases check with
  | object clauses => exact congrArg Check.object (groupMap_groupMap f h clauses)
  | oneOf alternatives => exact congrArg Check.oneOf (List.map_map ..)
  | kind | literal | regex | arrayOf | anything => rfl

theorem map_id (check : Check ρ) : check.map id = check := by
  cases check with
  | object clauses => exact congrArg Check.object (groupMap_id clauses)
  | oneOf alternatives => exact congrArg Check.oneOf (List.map_id alternatives)
  | kind | literal | regex | arrayOf | anything => rfl

theorem refs_map (f : ρ → σ) (check : Check ρ) : (check.map f).refs = check.refs.map f := by
  cases check with
  | object clauses => exact groupRefs_map f clauses
  | kind | literal | regex | arrayOf | oneOf | anything => rfl

theorem unguardedRefs_map (f : ρ → σ) (check : Check ρ) :
    (check.map f).unguardedRefs = check.unguardedRefs.map f := by
  cases check with
  | object clauses => exact groupFlattenTargets_map f clauses
  | kind | literal | regex | arrayOf | oneOf | anything => rfl

/-- What is followed without descending into the value is a reference. -/
theorem unguardedRefs_subset (check : Check ρ) : check.unguardedRefs ⊆ check.refs := by
  cases check with
  | object clauses => exact groupFlattenTargets_subset clauses
  | oneOf alternatives => exact List.Subset.refl _
  | kind | literal | regex | arrayOf | anything => exact List.nil_subset _

end Check

end JsonPattern
