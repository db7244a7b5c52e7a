import JsonPattern.Proofs.Graph.Growth
import JsonPattern.Regex.Search

/-!
# Validators and texts of graphs that grow

What has once been made of a graph, be it a validator, a text or a fault that is not about a
missing pattern, is made of it after all further changes.
-/

namespace JsonPattern

namespace Graph

variable {E : Engine}

/-- Results are stable under growth. Whatever is added, reserved or filled later, successfully or
not, a root is compiled to the same validator or refused for the same fault, unless the fault was
that of an id without a pattern; and so for the text. -/
theorem results_stable_of_edits (g : Graph) (changes : List Edit) (root : NodeId) :
    ((∀ fault, g.compileWith E root = .error fault → ¬ fault.Dangling) →
      (g.edits changes).compileWith E root = g.compileWith E root) ∧
    ((∀ fault, g.text root = .error fault → ¬ fault.Dangling) →
      (g.edits changes).text root = g.text root) := by
  have hmirror := (g.extends_edits changes).mirror
  exact ⟨fun h ↦ ((hmirror.compile rfl).eq_of_not_excused h).symm,
    fun h ↦ ((hmirror.text rfl).eq_of_not_excused h).symm⟩

/-- A part is an object with a list of parts. Besides, there is a disjunction that is one of its own
alternatives, and an id that is reserved. -/
def assemblies : Graph :=
  ⟨#[some (.body (.object [.named "parts" ⟨1⟩])), some (.body (.arrayOf ⟨2⟩)), some (.cyclic ⟨0⟩),
    some (.body (.oneOf [⟨3⟩, ⟨0⟩])), none]⟩

/-- The slot that is reserved is filled, one that is taken and one that does not exist are not, and
there are new ids. -/
def laterChanges : List Edit :=
  [.fill ⟨4⟩ (.body .anything), .fill ⟨0⟩ (.body .anything), .fill ⟨9⟩ (.body .anything), .reserve,
    .add (.body (.type .string))]

/-- Parts are still parts, and the disjunction is still refused. -/
theorem results_stable_assemblies : ∃ V text, assemblies.compileWith Regex.engine ⟨0⟩ = .ok V ∧
    (assemblies.edits laterChanges).compileWith Regex.engine ⟨0⟩ = .ok V ∧
    assemblies.text ⟨0⟩ = .ok text ∧ (assemblies.edits laterChanges).text ⟨0⟩ = .ok text ∧
    (assemblies.edits laterChanges).compileWith Regex.engine ⟨3⟩ = .error ⟨⟨3⟩, .unguardedCycle⟩ ∧
    (assemblies.edits laterChanges).get ⟨4⟩ = .ok (.body .anything) := by
  have hcompile : assemblies.compileWith Regex.engine ⟨0⟩ =
      .ok ⟨#[.object [.named "parts" 1], .arrayOf 0], 0⟩ := rfl
  have htext : assemblies.text ⟨0⟩ = .ok _ := rfl
  have hfault : assemblies.compileWith Regex.engine ⟨3⟩ = .error ⟨⟨3⟩, .unguardedCycle⟩ := rfl
  obtain ⟨hparts, hpartsText⟩ := results_stable_of_edits assemblies laterChanges ⟨0⟩
  obtain ⟨hrefused, -⟩ := results_stable_of_edits assemblies laterChanges ⟨3⟩
  refine ⟨_, _, hcompile, (hparts fun fault h ↦ ?_).trans hcompile, htext,
    (hpartsText fun fault h ↦ ?_).trans htext, (hrefused fun fault h ↦ ?_).trans hfault, rfl⟩
  · rw [hcompile] at h
    cases h
  · rw [htext] at h
    cases h
  · rw [hfault] at h
    cases h
    rintro (h | h) <;> cases h

end Graph

end JsonPattern
