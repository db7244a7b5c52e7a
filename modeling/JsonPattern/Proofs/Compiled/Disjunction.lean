import JsonPattern.Proofs.Graph.Table
import JsonPattern.Proofs.Validator.Disjunction
import JsonPattern.Regex.Search

/-!
# Compiled disjunctions

A compiled disjunction is sound and never picks silently: what it accepts is accepted by one of the
leaves below it, and what several of its alternatives claim is reported as ambiguous.
-/

namespace JsonPattern

namespace Graph

variable {g : Graph} {E : Engine} {root : NodeId} {V : Validator}

/-- What holds of every disjunction of a compiled validator, at any path. A value without failures
has none at some leaf below an alternative. A value that is no object and has no failure at the
alternatives in two positions has a single failure, an ambiguity at the path. An object that two
leaves claim has an ambiguity as its first failure. -/
theorem disjunction_sound_of_compile (h : g.compileWith E root = .ok V) {slot : Nat}
    {alternatives : List Nat} (hslot : V.checks[slot]? = some (.oneOf alternatives)) (path : Path) :
    (∀ value, V.table.failures slot path value = [] →
      ∃ a ∈ alternatives, ∃ leaf, V.table.IsLeafBelow a leaf ∧
        V.table.failures leaf path value = []) ∧
    (∀ (value : Json) (i j first second : Nat), value.isObject = false → i ≠ j →
      alternatives[i]? = some first → alternatives[j]? = some second →
      V.table.failures first path value = [] → V.table.failures second path value = [] →
      ∃ labels, V.table.failures slot path value =
        [.ambiguous path value.shallowText labels]) ∧
    ∀ (members : Members) (first second : Nat), first ≠ second →
      (∃ a ∈ alternatives, V.table.IsLeafBelow a first) →
      (∃ a ∈ alternatives, V.table.IsLeafBelow a second) →
      V.table.Claims path members first → V.table.Claims path members second →
      ∃ failure rest, V.table.failures slot path (.object members) = failure :: rest ∧
        failure.isAmbiguity = true := by
  obtain ⟨rank, hranked⟩ := exists_ranked_of_compile h
  have hcheck := Validator.check_eq_of_getElem? hslot
  have hmem := Set.mem_univ slot
  refine ⟨?_, ?_, ?_⟩
  · intro value hfailures
    obtain ⟨leaf, hleaf, haccepts⟩ := hranked.exists_leaf_of_failures_eq_nil hmem hfailures
    obtain ⟨a, ha, hleaf⟩ := (Table.isLeafBelow_iff_of_oneOf hcheck).1 hleaf
    exact ⟨a, ha, leaf, hleaf, haccepts⟩
  · intro value i j first second hvalue hne hi hj hfirst hsecond
    exact hranked.failures_eq_of_positions hmem hcheck hvalue hne hi hj hfirst hsecond
  · intro members first second hne hfirst hsecond hclaims hclaims'
    exact hranked.exists_ambiguity_of_claims hmem hcheck hne
      ((Table.isLeafBelow_iff_of_oneOf hcheck).2 hfirst)
      ((Table.isLeafBelow_iff_of_oneOf hcheck).2 hsecond) hclaims hclaims'

/-- Objects with a member `a` or, by a disjunction of its own, with a member `b`. Either may have
other members. -/
def overlap : Graph :=
  ⟨#[some (.body (.oneOf [⟨1⟩, ⟨2⟩])), some (.body (.object [.named "a" ⟨4⟩, .many ⟨4⟩])),
    some (.body (.oneOf [⟨3⟩])), some (.body (.object [.named "b" ⟨4⟩, .many ⟨4⟩])),
    some (.body .anything)]⟩

/-- An object with both members is ambiguous. -/
theorem disjunction_sound_overlap : ∃ V, overlap.compileWith Regex.engine ⟨0⟩ = .ok V ∧
    ∃ failure rest, V.validate (.object [("a", .null), ("b", .null)]) = failure :: rest ∧
      failure.isAmbiguity = true := by
  have hcompile : overlap.compileWith Regex.engine ⟨0⟩ =
      .ok ⟨#[.oneOf [1, 3], .object [.named "a" 2, .many 2],
      .anything, .oneOf [4], .object [.named "b" 2, .many 2]], 0⟩ := rfl
  refine ⟨_, hcompile, ?_⟩
  have hslot : #[Check.oneOf [1, 3], .object [.named "a" 2, .many 2], .anything, .oneOf [4],
      .object [.named "b" 2, .many 2]][0]? = some (.oneOf [1, 3]) := rfl
  refine (disjunction_sound_of_compile hcompile hslot .root).2.2 [("a", .null), ("b", .null)] 1 4
    (by decide) ⟨1, by decide, .refl, nofun⟩
    ⟨3, by decide, .single ⟨[4], rfl, by decide⟩, nofun⟩ ⟨rfl, ?_⟩ ⟨rfl, ?_⟩
  · exact fun _ ↦ ⟨"a", by decide, by decide⟩
  · exact fun _ ↦ ⟨"b", by decide, by decide⟩

end Graph

end JsonPattern
