import JsonPattern.Proofs.Compiled.Sharing
import JsonPattern.Proofs.Validator.Alternation
import JsonPattern.Regex.Search

/-!
# Compiled alternations of objects

Several objects can be put to choice by a disjunction, by an alternation of their clauses in a
single object, or by an object that flattens the disjunction. Which way is taken cannot be told from
the failures of an object.
-/

namespace JsonPattern

namespace Graph

variable {g : Graph} {E : Engine}

/-- The three ways to write an alternation of objects agree. An object meets the same failures at a
disjunction of several different objects, at an object whose one clause is an alternation of the
lists of clauses of these objects, and at an object whose one clause flattens the disjunction,
whichever validators have slots for the three. -/
theorem alternations_agree_of_compile {objects : List NodeId}
    {groups : List (List (Clause NodeId))} {disjunction alternation flattening : NodeId}
    (htwo : 2 ≤ objects.length) (hnodup : (objects.map g.resolved).Nodup)
    (hobjects : objects.map g.shape = groups.map .object)
    (hdisjunction : g.shape disjunction = .oneOf objects)
    (halternation : g.shape alternation = .object [.oneOf groups])
    (hflattening : g.shape flattening = .object [.flatten disjunction])
    {V₁ V₂ V₃ : Validator} {i j k : Nat} (hV₁ : g.HasSlot E V₁ disjunction i)
    (hV₂ : g.HasSlot E V₂ alternation j) (hV₃ : g.HasSlot E V₃ flattening k)
    (path : Path) (members : Members) :
    V₂.table.failures j path (.object members) = V₁.table.failures i path (.object members) ∧
    V₃.table.failures k path (.object members) = V₁.table.failures i path (.object members) := by
  have hchecks : (objects.map g.resolved).map (g.table E).check =
      (groups.map (groupMap g.resolved)).map .object := by
    have hshapes := congrArg (List.map fun shape : Shape NodeId ↦
      ((shape.check? E).getD .anything).map g.resolved) hobjects
    have hcomp : (g.table E).check ∘ g.resolved =
        (fun shape ↦ ((shape.check? E).getD .anything).map g.resolved) ∘ g.shape :=
      funext fun o ↦ check_resolved o
    rw [List.map_map, hcomp, ← List.map_map, hshapes, List.map_map, List.map_map]
    rfl
  have hisObject : ∀ o ∈ objects.map g.resolved, (g.table E).isObject o = true := by
    intro o ho
    have hmem := List.mem_map_of_mem (f := (g.table E).check) ho
    rw [hchecks] at hmem
    obtain ⟨clauses, -, hcheck⟩ := List.mem_map.1 hmem
    rw [Table.isObject, ← hcheck, Check.isObject]
  have hcheck₁ : (g.table E).check (g.resolved disjunction) = .oneOf (objects.map g.resolved) := by
    rw [check_resolved, table_check, hdisjunction]
    rfl
  have hcheck₂ : (g.table E).check (g.resolved alternation) =
      .object [.oneOf (groups.map (groupMap g.resolved))] := by
    rw [check_resolved, table_check, halternation, ← groupsMap_eq_map]
    rfl
  have hcheck₃ : (g.table E).check (g.resolved flattening) =
      .object [.flatten (g.resolved disjunction)] := by
    rw [check_resolved, table_check, hflattening]
    rfl
  obtain ⟨nodes₁, rank₁, hranked₁, hmem₁, hagrees₁⟩ := hV₁.exists_agrees
  obtain ⟨nodes₂, rank₂, hranked₂, hmem₂, hagrees₂⟩ := hV₂.exists_agrees
  obtain ⟨nodes₃, rank₃, hranked₃, hmem₃, hagrees₃⟩ := hV₃.exists_agrees
  have hnodes : ∀ o ∈ objects.map g.resolved, o ∈ nodes₁ := fun o ho ↦
    (hranked₁.mem_of_oneOf hmem₁ hcheck₁ ho).1
  rw [hagrees₁.failures_eq, hagrees₂.failures_eq, hagrees₃.failures_eq,
    hranked₁.failures_of_disjunction hmem₁ hcheck₁ hisObject hnodup (by rwa [List.length_map]),
    hranked₂.failures_of_alternation hmem₂ hcheck₂,
    hranked₃.failures_of_flatten hmem₃ hcheck₃ hcheck₁]
  exact ⟨congrArg _ (hranked₁.dispatchViews_ref_eq hnodes hchecks), rfl⟩

/-- A name with a nickname or a number with a nickname, put to choice in three ways. -/
def threeForms : Graph :=
  ⟨#[some (.body (.type .string)), some (.body (.type .number)),
    some (.body (.object [.named "id" ⟨0⟩, .named "nick" ⟨0⟩])),
    some (.body (.object [.named "id" ⟨1⟩, .named "nick" ⟨0⟩])),
    some (.body (.oneOf [⟨2⟩, ⟨3⟩])),
    some (.body (.object [.oneOf [[.named "id" ⟨0⟩, .named "nick" ⟨0⟩],
      [.named "id" ⟨1⟩, .named "nick" ⟨0⟩]]])),
    some (.body (.object [.flatten ⟨4⟩]))]⟩

/-- Either object opens with `id`, so the value of that member decides: an object with a number is
held to the second alternative, and one with neither a name nor a number to none. -/
theorem alternations_agree_threeForms : ∃ V₁ V₂ V₃,
    threeForms.compileWith Regex.engine ⟨4⟩ = .ok V₁ ∧
    threeForms.compileWith Regex.engine ⟨5⟩ = .ok V₂ ∧
    threeForms.compileWith Regex.engine ⟨6⟩ = .ok V₃ ∧
    (∀ members, V₂.validate (.object members) = V₁.validate (.object members) ∧
      V₃.validate (.object members) = V₁.validate (.object members)) ∧
    V₁.validate (.object [("id", .integer 7), ("nick", .null)]) =
      [.unexpected (Path.root.member "nick") "null" "string"] ∧
    V₁.validate (.object [("id", .null), ("nick", .null)]) =
      [.unexpectedOf (Path.root.member "id") "null" (.ofList ["string", "number"]),
        .unexpected .root "names: nick" endOfMembers] := by
  have h₁ : threeForms.compileWith Regex.engine ⟨4⟩ =
    .ok ⟨#[.oneOf [1, 3], .object [.named "id" 2, .named "nick" 2], .kind .string,
      .object [.named "id" 4, .named "nick" 2], .kind .number], 0⟩ := rfl
  have h₂ : threeForms.compileWith Regex.engine ⟨5⟩ =
    .ok ⟨#[.object [.oneOf [[.named "id" 1, .named "nick" 1], [.named "id" 2, .named "nick" 1]]],
      .kind .string, .kind .number], 0⟩ := rfl
  have h₃ : threeForms.compileWith Regex.engine ⟨6⟩ =
    .ok ⟨#[.object [.flatten 1], .oneOf [2, 4], .object [.named "id" 3, .named "nick" 3],
      .kind .string, .object [.named "id" 5, .named "nick" 3], .kind .number], 0⟩ := rfl
  have hobjects : ([⟨2⟩, ⟨3⟩] : List NodeId).map threeForms.shape =
      [[Clause.named "id" ⟨0⟩, .named "nick" ⟨0⟩],
        [.named "id" ⟨1⟩, .named "nick" ⟨0⟩]].map .object := rfl
  exact ⟨_, _, _, h₁, h₂, h₃, alternations_agree_of_compile (by decide) (by decide) hobjects
    rfl rfl rfl (hasSlot_root h₁) (hasSlot_root h₂) (hasSlot_root h₃) .root, rfl, rfl⟩

end Graph

end JsonPattern
