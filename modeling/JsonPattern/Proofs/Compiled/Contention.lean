import JsonPattern.Proofs.Compiled.Termination
import JsonPattern.Proofs.Validator.Contention
import JsonPattern.Regex.Search

/-!
# Ambiguities of a compiled validator

An ambiguity is meant to tell that two or more alternatives match the same input. What raises one in
a compiled validator is a choice that is contested: by two alternatives, or by a single one, where
it is counted twice. A validator that is listed twice is counted at both positions against a value
that is no object, and an alternative is counted once for each of its first names that is present
(`Graph.ambiguity_of_one_alternative`).
-/

namespace JsonPattern

namespace Graph

variable {g : Graph} {E : Engine} {root : NodeId} {V : Validator}

/-- The failures of a value are those raised by the calls that the look at the root leads to. Every
call that raises an ambiguity is contested. It looks at an object that fits two different leaves of
a disjunction; or at another value that fits the alternatives at two positions; or it chooses
between views, and those at two positions have a first name that is present, or the one that has,
has two of them, or those at two positions are opened by the value under the one name that is
present. -/
theorem ambiguity_contested_of_compile (h : g.compileWith E root = .ok V) :
    (∀ path value failure, failure ∈ V.validateAt path value ↔
      ∃ call, Relation.ReflTransGen V.table.Delegates (.check V.root path value) call ∧
        V.table.Raises call failure) ∧
    ∀ call failure, V.table.Raises call failure → failure.isAmbiguity = true →
      V.table.Contested call := by
  obtain ⟨rank, hranked⟩ := exists_ranked_of_compile h
  have hsize (slot : Nat) : (V.table.check slot).size + 2 ≤ V.weight + 2 :=
    Nat.add_le_add_right (V.size_check_le_weight slot) 2
  have htraced (call : Call Nat) (failure : Failure) : failure ∈ V.table.failuresOf call ↔
      ∃ call', Relation.ReflTransGen V.table.Delegates call call' ∧
        V.table.Raises call' failure := hranked.mem_failuresOf_iff_raised hsize
  exact ⟨fun path value ↦ htraced (.check V.root path value),
    fun call failure hraises hambiguity ↦ hranked.contested_of_raises hraises hambiguity⟩

/-- Strings, listed twice, or objects with a member `b`, which a member `a` may precede, or with a
member `c`. -/
def doubled : Graph :=
  ⟨#[some (.body (.oneOf [⟨1⟩, ⟨1⟩, ⟨2⟩])), some (.body (.type .string)),
    some (.body (.object [.oneOf [[.optional [.named "a" ⟨3⟩], .named "b" ⟨3⟩],
      [.named "c" ⟨3⟩]]])), some (.body .anything)]⟩

/-- The ambiguity of a string is raised by a call that is contested. -/
theorem ambiguity_contested_doubled : ∃ V, doubled.compileWith Regex.engine ⟨0⟩ = .ok V ∧
    ∃ call, Relation.ReflTransGen V.table.Delegates (.check V.root .root (.string "s")) call ∧
      V.table.Contested call := by
  have hcompile : doubled.compileWith Regex.engine ⟨0⟩ = .ok ⟨#[.oneOf [1, 1, 2], .kind .string,
      .object [.oneOf [[.optional [.named "a" 3], .named "b" 3], [.named "c" 3]]], .anything],
      0⟩ := rfl
  refine ⟨_, hcompile, ?_⟩
  obtain ⟨htraced, hcontested⟩ := ambiguity_contested_of_compile hcompile
  obtain ⟨call, hrun, hraises⟩ := (htraced .root (.string "s")
    (.ambiguous .root "\"s\"" (.ofList ["string"]))).1 (List.mem_singleton_self _)
  exact ⟨call, hrun, hcontested call _ hraises rfl⟩

/-- One alternative is enough for an ambiguity, even one that accepts the input. A string fits one
check only, which is listed twice and accepts it. Of two groups only one has first names among the
members `a` and `b`; it has both, and takes both without a failure. -/
theorem ambiguity_of_one_alternative : ∃ V, doubled.compileWith Regex.engine ⟨0⟩ = .ok V ∧
    (V.checks[0]? = some (.oneOf [1, 1, 2]) ∧
      (∀ a ∈ [1, 1, 2], V.table.fits a (.string "s") = true → a = 1) ∧
      V.table.failures 1 .root (.string "s") = [] ∧
      V.validate (.string "s") = [.ambiguous .root "\"s\"" (.ofList ["string"])]) ∧
    V.checks[2]? = some (.object [.oneOf [[.optional [.named "a" 3], .named "b" 3],
      [.named "c" 3]]]) ∧
    V.table.candidates [.group [.optional [.named "a" 3], .named "b" 3], .group [.named "c" 3]]
      [("a", .null), ("b", .null)] = [.group [.optional [.named "a" 3], .named "b" 3]] ∧
    V.table.takePart .root (.view (.group [.optional [.named "a" 3], .named "b" 3]))
      [("a", .null), ("b", .null)] = ⟨[], []⟩ ∧
    V.validate (.object [("a", .null), ("b", .null)]) =
      [.ambiguous .root "names: a, b" (.ofList ["name:\"a\"", "name:\"b\""]),
        .unexpected .root "names: a, b" endOfMembers] := by
  have hcompile : doubled.compileWith Regex.engine ⟨0⟩ = .ok ⟨#[.oneOf [1, 1, 2], .kind .string,
      .object [.oneOf [[.optional [.named "a" 3], .named "b" 3], [.named "c" 3]]], .anything],
      0⟩ := rfl
  exact ⟨_, hcompile, ⟨rfl, by decide, rfl, rfl⟩, rfl, rfl, rfl, rfl⟩

end Graph

end JsonPattern
