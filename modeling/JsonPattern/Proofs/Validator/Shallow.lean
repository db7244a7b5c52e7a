import JsonPattern.Proofs.Validator.Accounting
import JsonPattern.Proofs.Validator.Unfolding

/-!
# Shallow looks and verdicts

The shallow look and the verdict are two walks over the same checks. Where the look says no, the
verdict is a single failure at the place itself; where it says yes, all failures come from further
down in the value, so a scalar has none. Disjunctions carry both from the one branch that fits, and
are refused at the place where there is no such branch.
-/

namespace JsonPattern

namespace Table

variable {ρ : Type} [DecidableEq ρ] {T : Table ρ} {nodes : Set ρ} {rank : ρ → Nat} {path : Path}
  {value : Json} {r : ρ}

/-- A value that fits no branch of a disjunction, or several, has one failure at its path. -/
theorem Ranked.exists_failure_of_branches (h : T.Ranked nodes rank) (hr : r ∈ nodes)
    {alternatives : List ρ} (hcheck : T.check r = .oneOf alternatives)
    (hbranches : (T.branches alternatives value).length ≠ 1) :
    ∃ failure, T.failures r path value = [failure] ∧ failure.path = path := by
  by_cases hnone : T.branches alternatives value = []
  · refine ⟨.unexpectedOf path value.shallowText (T.labelsOf alternatives), ?_, rfl⟩
    rw [h.failures_eq hr, hcheck]
    simp only [hnone]
  · have hpos := List.length_pos_iff.2 hnone
    exact ⟨_, h.failures_eq_of_two_le hr hcheck (by omega), rfl⟩

/-- A value that does not fit has one failure, at its path. -/
theorem Ranked.exists_failure_of_not_fits (h : T.Ranked nodes rank) (hr : r ∈ nodes)
    (hfits : T.fits r value = false) :
    ∃ failure, T.failures r path value = [failure] ∧ failure.path = path := by
  rw [h.fits_eq hr] at hfits
  cases hcheck : T.check r with
  | oneOf alternatives =>
    rw [hcheck] at hfits
    exact h.exists_failure_of_branches hr hcheck (beq_eq_false_iff_ne.1 hfits)
  | kind type =>
    simp only [hcheck] at hfits
    refine ⟨.unexpected path value.kind.label type.label, ?_, rfl⟩
    rw [h.failures_eq hr, hcheck]
    simp only [hfits, Bool.false_eq_true, if_false]
  | literal literal =>
    simp only [hcheck] at hfits
    refine ⟨literalFailure path literal value, ?_, literalFailure_path path literal value⟩
    rw [h.failures_eq hr, hcheck]
    simp only [hfits, Bool.false_eq_true, if_false]
  | regex regex label =>
    rw [h.failures_eq hr, hcheck]
    cases value with
    | string s =>
      simp only [hcheck] at hfits
      simp only [hfits, Bool.false_eq_true, if_false]
      exact ⟨_, rfl, rfl⟩
    | null | bool | integer | float | array | object => exact ⟨_, rfl, rfl⟩
  | arrayOf element =>
    rw [h.failures_eq hr, hcheck]
    cases value with
    | array => simp [hcheck, Json.isArray] at hfits
    | null | bool | integer | float | string | object => exact ⟨_, rfl, rfl⟩
  | object clauses =>
    rw [h.failures_eq hr, hcheck]
    cases value with
    | object => simp [hcheck, Json.isObject] at hfits
    | null | bool | integer | float | string | array => exact ⟨_, rfl, rfl⟩
  | anything => simp [hcheck] at hfits

/-- A scalar that fits one branch of a disjunction fits an alternative, and has its failures. -/
theorem Ranked.exists_alternative_of_isScalar (h : T.Ranked nodes rank) (hr : r ∈ nodes)
    {alternatives : List ρ} (hcheck : T.check r = .oneOf alternatives)
    (hvalue : value.isScalar = true) (hfits : T.fits r value = true) :
    ∃ a ∈ alternatives, T.fits a value = true ∧
      T.failures r path value = T.failures a path value := by
  have hobject : value.isObject = false := by
    cases value with
    | object => cases hvalue
    | null | bool | integer | float | string | array => rfl
  rw [h.fits_eq_of_not_isObject hr hcheck hobject, beq_iff_eq] at hfits
  obtain ⟨failures, hfitting⟩ := List.length_eq_one_iff.1 hfits
  obtain ⟨a, ha, rfl⟩ := List.map_eq_singleton_iff.1 hfitting
  have hmem : a ∈ alternatives.filter fun a ↦ T.fits a value := ha ▸ List.mem_singleton_self a
  exact ⟨a, (List.mem_filter.1 hmem).1, (List.mem_filter.1 hmem).2,
    h.failures_eq_of_fitting hr hcheck hobject hfitting⟩

/-- A scalar that fits has no failures. -/
theorem Ranked.failures_eq_nil_of_fits (h : T.Ranked nodes rank) (hr : r ∈ nodes)
    (hvalue : value.isScalar = true) (hfits : T.fits r value = true) :
    T.failures r path value = [] := by
  induction hn : rank r using Nat.strong_induction_on generalizing r with
  | h n ih =>
    subst hn
    cases hcheck : T.check r with
    | oneOf alternatives =>
      obtain ⟨a, ha, hfits, hfailures⟩ : ∃ a ∈ alternatives, T.fits a value = true ∧
          T.failures r path value = T.failures a path value :=
        h.exists_alternative_of_isScalar hr hcheck hvalue hfits
      have hmem := h.mem_of_oneOf hr hcheck ha
      exact hfailures.trans (ih (rank a) hmem.2 hmem.1 hfits rfl)
    | kind | literal =>
      rw [h.fits_eq hr, hcheck] at hfits
      rw [h.failures_eq hr, hcheck]
      exact if_pos hfits
    | regex =>
      rw [h.fits_eq hr, hcheck] at hfits
      rw [h.failures_eq hr, hcheck]
      cases value with
      | string s => exact if_pos hfits
      | null | bool | integer | float | array | object => cases hfits
    | arrayOf | object =>
      rw [h.fits_eq hr, hcheck] at hfits
      cases value with
      | array | object => cases hvalue
      | null | bool | integer | float | string => cases hfits
    | anything => rw [h.failures_eq hr, hcheck]

/-- On scalars the look and the verdict coincide. -/
theorem Ranked.failures_eq_nil_iff_fits (h : T.Ranked nodes rank) (hr : r ∈ nodes)
    (hvalue : value.isScalar = true) : T.failures r path value = [] ↔ T.fits r value = true :=
  ⟨h.fits_of_failures_eq_nil hr, h.failures_eq_nil_of_fits hr hvalue⟩

end Table

end JsonPattern
