import JsonPattern.Proofs.Compiled.Regularity
import JsonPattern.Proofs.Validator.Expectation
import JsonPattern.Regex.Search

/-!
# What the failures of a compiled validator name

A graph that has a disjunction of no alternatives does not compile. So every check of a compiled
validator has a label, and all of its failures name something.
-/

namespace JsonPattern

/-- In a regular validator no disjunction is empty. -/
theorem Validator.Regular.check_ne_oneOf_nil {V : Validator} (hregular : V.Regular) (slot : Nat) :
    V.table.check slot ≠ .oneOf [] := by
  intro hcheck
  by_cases hslot : slot < V.size
  · have hproper := hregular.proper _ (check_mem_of_lt hslot)
    rw [hcheck] at hproper
    exact hproper rfl
  · rw [check_eq_anything_of_le (Nat.not_lt.1 hslot)] at hcheck
    cases hcheck

namespace Graph

variable {g : Graph} {E : Engine} {root : NodeId} {V : Validator}

/-- Every failure of a compiled validator names something that was expected, or that overlaps,
whichever of its functions finds it: one label, or a set of at least two, or a set of overlapping
labels that is not empty. -/
theorem namesSomething_of_compile (h : g.compileWith E root = .ok V) :
    (∀ call, ∀ failure ∈ V.table.failuresOf call, failure.cause.NamesSomething) ∧
    ∀ path value, ∀ failure ∈ V.validateAt path value, failure.cause.NamesSomething := by
  obtain ⟨rank, hranked⟩ := exists_ranked_of_compile h
  obtain ⟨order, _, -, hcompiled, rfl⟩ := exists_compiled h
  have hregular := hcompiled.regular
  generalize (⟨(g.checks E order).toArray, g.slot order root⟩ : Validator) = V at hregular hranked ⊢
  have hsize (slot : Nat) : (V.table.check slot).size + 2 ≤ V.weight + 2 :=
    Nat.add_le_add_right (V.size_check_le_weight slot) 2
  have hnames (call : Call Nat) :
      ∀ failure ∈ V.table.failuresOf call, failure.cause.NamesSomething := fun _ ↦
    hranked.namesSomething_of_mem_failuresOf hregular.check_ne_oneOf_nil hsize
  exact ⟨hnames, fun path value ↦ hnames (.check V.root path value)⟩

/-- A count, or an object with a count or with a weight. -/
def quantity : Graph :=
  ⟨#[some (.body (.oneOf [⟨1⟩, ⟨2⟩])), some (.body (.type .integer)),
    some (.body (.object [.oneOf [[.named "count" ⟨1⟩], [.named "weight" ⟨3⟩]]])),
    some (.body (.type .float))]⟩

/-- Where nothing fits, all labels are named; where both members are there, both names. -/
theorem namesSomething_quantity : ∃ V, quantity.compileWith Regex.engine ⟨0⟩ = .ok V ∧
    V.validate .null = [.unexpectedOf .root "null" (.ofList ["integer", "object"])] ∧
    V.validate (.object [("count", .integer 1), ("weight", .null)]) =
      [.ambiguous .root "names: count, weight" (.ofList [nameLabel "count", nameLabel "weight"]),
        .unexpected .root "names: count, weight" endOfMembers] ∧
    ∀ value, ∀ failure ∈ V.validate value, failure.cause.NamesSomething := by
  have hcompile : quantity.compileWith Regex.engine ⟨0⟩ = .ok ⟨#[.oneOf [1, 2], .kind .integer,
      .object [.oneOf [[.named "count" 1], [.named "weight" 3]]], .kind .float], 0⟩ := rfl
  exact ⟨_, hcompile, rfl, rfl, fun value ↦ (namesSomething_of_compile hcompile).2 .root value⟩

end Graph

end JsonPattern
