import JsonPattern.Proofs.Graph.Table
import JsonPattern.Proofs.Validator.Shallow
import JsonPattern.Regex.Search

/-!
# Shallow looks of a compiled validator

What a compiled validator sees at a shallow look is what its verdict says of the place itself.
-/

namespace JsonPattern

namespace Graph

variable {g : Graph} {E : Engine} {root : NodeId} {V : Validator}

/-- Every slot of a compiled validator, at any path. A value that does not fit has exactly one
failure, and its path is exactly this path; a scalar that fits has none. So whatever is accepted
fits, and a scalar is accepted where it fits and nowhere else. -/
theorem shallow_agrees_of_compile (h : g.compileWith E root = .ok V) (slot : Nat) (path : Path)
    (value : Json) :
    (V.table.fits slot value = false →
      ∃ failure, V.table.failures slot path value = [failure] ∧ failure.path = path) ∧
    (value.isScalar = true → V.table.fits slot value = true →
      V.table.failures slot path value = []) ∧
    (V.table.failures slot path value = [] → V.table.fits slot value = true) ∧
    (value.isScalar = true →
      (V.table.failures slot path value = [] ↔ V.table.fits slot value = true)) ∧
    (V.isValid value = true → V.fits value = true) ∧
    (value.isScalar = true → V.isValid value = V.fits value) := by
  obtain ⟨rank, hranked⟩ := exists_ranked_of_compile h
  have hmem (slot : Nat) : slot ∈ Set.univ := Set.mem_univ slot
  have hvalid : V.isValid value = true ↔ V.table.failures V.root .root value = [] :=
    List.isEmpty_iff
  refine ⟨hranked.exists_failure_of_not_fits (hmem slot),
    hranked.failures_eq_nil_of_fits (hmem slot), hranked.fits_of_failures_eq_nil (hmem slot),
    hranked.failures_eq_nil_iff_fits (hmem slot), ?_, ?_⟩
  · intro haccepted
    exact hranked.fits_of_failures_eq_nil (hmem V.root) (hvalid.1 haccepted)
  · intro hvalue
    exact Bool.eq_iff_iff.2
      (hvalid.trans (hranked.failures_eq_nil_iff_fits (hmem V.root) hvalue))

/-- Strings, or what is either seven or an integer. -/
def overlapping : Graph :=
  ⟨#[some (.body (.oneOf [⟨1⟩, ⟨2⟩])), some (.body (.type .string)),
    some (.body (.oneOf [⟨3⟩, ⟨4⟩])), some (.body (.literal (.integer 7))),
    some (.body (.type .integer))]⟩

/-- Seven, which is both, is refused where it stands; eight is accepted. -/
theorem shallow_agrees_overlapping : ∃ V, overlapping.compileWith Regex.engine ⟨0⟩ = .ok V ∧
    (∃ failure, V.table.failures V.root .root (.integer 7) = [failure] ∧ failure.path = .root) ∧
    V.isValid (.integer 8) = true := by
  have hcompile : overlapping.compileWith Regex.engine ⟨0⟩ =
      .ok ⟨#[.oneOf [1, 2], .kind .string, .oneOf [3, 4],
      .literal (.integer 7), .kind .integer], 0⟩ := rfl
  refine ⟨_, hcompile, ?_, ?_⟩
  · exact (shallow_agrees_of_compile hcompile 0 .root (.integer 7)).1 rfl
  · exact (shallow_agrees_of_compile hcompile 0 .root (.integer 8)).2.2.2.2.2 rfl

end Graph

end JsonPattern
