import JsonPattern.Proofs.Compiled.Sharing
import JsonPattern.Proofs.Graph.Reordering
import JsonPattern.Proofs.Validator.Insensitivity
import JsonPattern.Regex.Search

/-!
# The declared order of alternatives

Nothing is decided by the order in which alternatives are declared, neither when a graph is compiled
nor when a value is validated. The order shows in reports only: in the order of labels, and of the
names between which an ambiguity could not decide.
-/

namespace JsonPattern

namespace Graph

variable {E : Engine}

/-- Alternatives and groups may be declared in any order. Of two graphs that differ in such orders
only, both compile from a root or neither does. If both do, they find a value at fault at the same
places, for the same causes, in the same order, and fit the same values; the labels in a failure may
stand in another order, and so may the names that an ambiguity lists as found. -/
theorem alternativeOrder_immaterial {g g' : Graph} (h : g.Reordered g') (root : NodeId) :
    ((∃ V, g.compileWith E root = .ok V) ↔ ∃ V', g'.compileWith E root = .ok V') ∧
    ∀ V V', g.compileWith E root = .ok V → g'.compileWith E root = .ok V' → ∀ value,
      (∀ path, List.Forall₂ (Failure.Alike fun failure ↦ failure.isAmbiguity = true)
        (V.validateAt path value) (V'.validateAt path value)) ∧
      V.fits value = V'.fits value := by
  refine ⟨⟨h.exists_compile, h.symm.exists_compile⟩, fun V V' hV hV' value ↦ ?_⟩
  obtain ⟨-, -, -, -, hagrees⟩ := (hasSlot_root hV).exists_agrees
  obtain ⟨-, -, -, -, hagrees'⟩ := (hasSlot_root hV').exists_agrees
  rw [← h.resolved_eq] at hagrees'
  have hsuits : (g.table E).Suits .exact :=
    ⟨fun _ _ _ ↦ .inr fun _ _ hvw ↦ hvw, .inl Comparison.exact_spreads⟩
  constructor
  · intro path
    rw [Validator.validateAt, Validator.validateAt, hagrees.failures_eq, hagrees'.failures_eq]
    exact h.table_reordered.failures_compared (C := .exact) hsuits rfl
  · rw [Validator.fits, Validator.fits, hagrees.fits_eq, hagrees'.fits_eq]
    exact h.table_reordered.fits_eq (C := .exact) hsuits rfl (g.resolved root)

/-- An object with a member `left`, or one with a member `right`. -/
def sides : Graph :=
  ⟨#[some (.body (.oneOf [⟨1⟩, ⟨2⟩])), some (.body (.object [.named "left" ⟨3⟩])),
    some (.body (.object [.named "right" ⟨3⟩])), some (.body .anything)]⟩

/-- The same alternatives, declared the other way round. -/
def sidesSwapped : Graph :=
  ⟨#[some (.body (.oneOf [⟨2⟩, ⟨1⟩])), some (.body (.object [.named "left" ⟨3⟩])),
    some (.body (.object [.named "right" ⟨3⟩])), some (.body .anything)]⟩

theorem sides_reordered : sides.Reordered sidesSwapped := by
  have hsame (p : Pattern) (hp : p.Reordered p) : Option.Rel Pattern.Reordered (some p) (some p) :=
    .some hp
  have hchoice : Pattern.Reordered (.body (.oneOf [⟨1⟩, ⟨2⟩])) (.body (.oneOf [⟨2⟩, ⟨1⟩])) :=
    ⟨_, rfl, _, rfl, .swap _ _ _⟩
  refine .cons (.some hchoice) (.cons (hsame _ ?_) (.cons (hsame _ ?_) (.cons (hsame _ ?_) .nil)))
  · exact ⟨_, rfl, _, rfl, groupReordered_refl _⟩
  · exact ⟨_, rfl, _, rfl, groupReordered_refl _⟩
  · exact ⟨_, rfl, rfl⟩

/-- An object with both members is ambiguous either way, and the names are listed as the
alternatives are. -/
theorem alternativeOrder_sides : ∃ V V', sides.compileWith Regex.engine ⟨0⟩ = .ok V ∧
    sidesSwapped.compileWith Regex.engine ⟨0⟩ = .ok V' ∧ V.checks.toList ≠ V'.checks.toList ∧
    (V.validate (.object [("left", .null), ("right", .null)])).map Failure.found =
      ["names: left, right", "names: left, right"] ∧
    (V'.validate (.object [("left", .null), ("right", .null)])).map Failure.found =
      ["names: right, left", "names: left, right"] ∧
    List.Forall₂ (Failure.Alike fun failure ↦ failure.isAmbiguity = true)
      (V.validate (.object [("left", .null), ("right", .null)]))
      (V'.validate (.object [("left", .null), ("right", .null)])) := by
  have hcompile : sides.compileWith Regex.engine ⟨0⟩ =
      .ok ⟨#[.oneOf [1, 3], .object [.named "left" 2], .anything,
    .object [.named "right" 2]], 0⟩ := rfl
  have hcompile' : sidesSwapped.compileWith Regex.engine ⟨0⟩ =
      .ok ⟨#[.oneOf [1, 3], .object [.named "right" 2],
    .anything, .object [.named "left" 2]], 0⟩ := rfl
  obtain ⟨-, halike⟩ := alternativeOrder_immaterial sides_reordered ⟨0⟩
  exact ⟨_, _, hcompile, hcompile', by simp, rfl, rfl, (halike _ _ hcompile hcompile' _).1 .root⟩

end Graph

end JsonPattern
