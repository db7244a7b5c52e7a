import JsonPattern.Proofs.Compiled.Sharing
import JsonPattern.Proofs.Validator.Unfolding
import JsonPattern.Regex.Search

/-!
# Compiled disjunctions unfolded

A disjunction among the alternatives of another one may as well be written in its place. Objects
meet the same failures either way; other values do, too, unless the unfolded disjunction shows an
overlap that the nesting hides.
-/

namespace JsonPattern

namespace Graph

variable {g : Graph} {E : Engine} {root : NodeId} {V : Validator} {slot : NodeId → Nat}

/-- The slots of alternatives unfold as the alternatives do. -/
theorem Numbering.unfoldings (hslot : g.Numbering E root slot V) (h : g.compileWith E root = .ok V)
    {as bs : List NodeId} (has : ∀ a ∈ as, g.Reaches root a)
    (hunfolds : Relation.ReflTransGen (Unfolds fun id inner ↦ g.shape id = .oneOf inner) as bs) :
    Relation.ReflTransGen V.table.UnfoldsTo (as.map slot) (bs.map slot) := by
  have hcheck : ∀ a, g.Reaches root a → ∀ inner, g.shape a = .oneOf inner →
      V.table.check (slot a) = .oneOf (inner.map slot) := fun a ha inner hshape ↦ by
    rw [hslot.check_slot_eq h ha, hshape]
    rfl
  induction hunfolds using Relation.ReflTransGen.head_induction_on with
  | refl => exact .refl
  | @head as cs hstep _ ih =>
    refine .head (hstep.map fun a ha inner hshape ↦ hcheck a (has a ha) inner hshape) (ih ?_)
    cases hstep with
    | @intro before after a inner hshape =>
      intro c hc
      rcases List.mem_append.1 hc with hc | hc
      · rcases List.mem_append.1 hc with hc | hc
        · exact has c (List.mem_append_left _ hc)
        · exact reaches_of_mem_refs (has a (by simp)) (by rw [hshape]; exact hc)
      · exact has c (List.mem_append_right _ (List.mem_cons_of_mem _ hc))

/-- Nested disjunctions splice. A disjunction and one that arises from it by replacing alternatives,
in place and to any depth, by the alternatives that they themselves stand for have the same labels.
Objects meet the same failures at both and fit both alike. Any other value does so if at most one
alternative of the unfolded disjunction fits, and where there is a difference the unfolded
disjunction reports an ambiguity. -/
theorem disjunction_splices_of_compile (h : g.compileWith E root = .ok V)
    (hslot : g.Numbering E root slot V) {nested flat : NodeId} {as bs : List NodeId}
    (hnested : g.Reaches root nested) (hflat : g.Reaches root flat)
    (hshape : g.shape nested = .oneOf as) (hshape' : g.shape flat = .oneOf bs)
    (hunfolds : Relation.ReflTransGen (Unfolds fun id inner ↦ g.shape id = .oneOf inner) as bs)
    (path : Path) :
    V.table.labels (slot nested) = V.table.labels (slot flat) ∧
    (∀ value : Json,
      value.isObject = true ∨ bs.countP (fun b ↦ V.table.fits (slot b) value) ≤ 1 →
      V.table.failures (slot nested) path value = V.table.failures (slot flat) path value ∧
        V.table.fits (slot nested) value = V.table.fits (slot flat) value) ∧
    ∀ value : Json,
      V.table.failures (slot nested) path value ≠ V.table.failures (slot flat) path value ∨
        V.table.fits (slot nested) value ≠ V.table.fits (slot flat) value →
      ∃ labels, V.table.failures (slot flat) path value =
        [.ambiguous path value.shallowText labels] := by
  obtain ⟨rank, hranked⟩ := exists_ranked_of_compile h
  have hmem (id : NodeId) : slot id ∈ (Set.univ : Set Nat) := Set.mem_univ _
  have hcheck : V.table.check (slot nested) = .oneOf (as.map slot) := by
    rw [hslot.check_slot_eq h hnested, hshape]
    rfl
  have hcheck' : V.table.check (slot flat) = .oneOf (bs.map slot) := by
    rw [hslot.check_slot_eq h hflat, hshape']
    rfl
  have hslots := hslot.unfoldings h
    (fun a ha ↦ reaches_of_mem_refs hnested (by rw [hshape]; exact ha)) hunfolds
  have hobject : ∀ value : Json, value.isObject = true →
      V.table.failures (slot nested) path value = V.table.failures (slot flat) path value ∧
        V.table.fits (slot nested) value = V.table.fits (slot flat) value := fun value ↦
    hranked.verdict_eq_of_unfoldings_object (hmem _) (hmem _) hcheck hcheck' hslots
  refine ⟨hranked.labels_eq_of_unfoldings (hmem _) (hmem _) hcheck hcheck' hslots, ?_, ?_⟩
  · intro value hvalue
    by_cases hobj : value.isObject = true
    · exact hobject value hobj
    · refine hranked.verdict_eq_of_unfoldings (hmem _) (hmem _) hcheck hcheck' hslots
        (eq_false_of_ne_true hobj) ?_
      rw [List.countP_map]
      exact hvalue.resolve_left hobj
  · intro value hne
    by_cases hobj : value.isObject = true
    · obtain ⟨hfailures, hfits⟩ := hobject value hobj
      rcases hne with hne | hne
      · exact absurd hfailures hne
      · exact absurd hfits hne
    · exact hranked.exists_ambiguity_of_unfoldings (hmem _) (hmem _) hcheck hcheck' hslots
        (eq_false_of_ne_true hobj) hne

/-- A string or, by a disjunction of its own, an object with a member `a` or one with a member `b`;
next to the same alternatives without nesting. -/
def nestedChoice : Graph :=
  ⟨#[some (.body (.object [.named "nested" ⟨1⟩, .named "flat" ⟨2⟩])),
    some (.body (.oneOf [⟨3⟩, ⟨4⟩])), some (.body (.oneOf [⟨3⟩, ⟨5⟩, ⟨6⟩])),
    some (.body (.type .string)), some (.body (.oneOf [⟨5⟩, ⟨6⟩])),
    some (.body (.object [.named "a" ⟨3⟩])), some (.body (.object [.named "b" ⟨3⟩]))]⟩

/-- An object with both members is ambiguous at either, and its members are left. -/
theorem disjunction_splices_nestedChoice : ∃ V slot,
    nestedChoice.compileWith Regex.engine ⟨0⟩ = .ok V ∧
    nestedChoice.Numbering Regex.engine ⟨0⟩ slot V ∧
    V.table.failures (slot ⟨1⟩) .root (.object [("a", .null), ("b", .null)]) =
      V.table.failures (slot ⟨2⟩) .root (.object [("a", .null), ("b", .null)]) ∧
    V.table.failures (slot ⟨2⟩) .root (.object [("a", .null), ("b", .null)]) =
      [.ambiguous .root "names: a, b" (.ofList ["name:\"a\"", "name:\"b\""]),
        .unexpected .root "names: a, b" "end of object members"] := by
  have hcompile : nestedChoice.compileWith Regex.engine ⟨0⟩ =
    .ok ⟨#[.object [.named "nested" 1, .named "flat" 6], .oneOf [2, 3], .kind .string,
      .oneOf [4, 5], .object [.named "a" 2], .object [.named "b" 2], .oneOf [2, 4, 5]], 0⟩ := rfl
  have hvisit : nestedChoice.visit Regex.engine ⟨0⟩ = .ok [⟨0⟩, ⟨1⟩, ⟨3⟩, ⟨4⟩, ⟨5⟩, ⟨6⟩, ⟨2⟩] := rfl
  have hslot := numbering_of_visit hcompile hvisit
  have hmention (id : NodeId) (hid : id ∈ ([⟨1⟩, ⟨2⟩] : List NodeId)) :
      nestedChoice.Reaches ⟨0⟩ id :=
    .single ⟨.body (.object [.named "nested" ⟨1⟩, .named "flat" ⟨2⟩]), rfl, hid⟩
  have hinner : nestedChoice.shape ⟨4⟩ = .oneOf [⟨5⟩, ⟨6⟩] := rfl
  have hunfolds : Unfolds (fun id inner ↦ nestedChoice.shape id = .oneOf inner)
      ([⟨3⟩] ++ ⟨4⟩ :: []) ([⟨3⟩] ++ [⟨5⟩, ⟨6⟩] ++ []) := .intro _ _ hinner
  obtain ⟨-, hequal, -⟩ := disjunction_splices_of_compile hcompile hslot
    (hmention ⟨1⟩ (by decide)) (hmention ⟨2⟩ (by decide)) rfl rfl (.single hunfolds) .root
  exact ⟨_, _, hcompile, hslot, (hequal _ (.inl rfl)).1, rfl⟩

end Graph

end JsonPattern
