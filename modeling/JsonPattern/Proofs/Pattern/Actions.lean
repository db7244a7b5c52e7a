import JsonPattern.Proofs.Pattern.Pairs

/-!
# Actions on the references of a body

What is done with the references of a body, one after the other, is done with the list of its
references. So an action that fails has failed on one of them, after it has succeeded on those
before; and if every action has results of some sort, then so do all of them together.
-/

namespace JsonPattern

variable {ρ σ τ : Type} {m : Type → Type} [Monad m]

/-! ### Actions one after the other -/

section Map

variable (f : ρ → σ) (action : σ → m τ)

mutual

theorem Clause.mapM_map : (clause : Clause ρ) →
    (clause.map f).mapM action = clause.mapM (action ∘ f)
  | .named _ _ => rfl
  | .optional group => by simp only [Clause.map, Clause.mapM, groupMapM_map group]
  | .many _ => rfl
  | .flatten _ => rfl
  | .oneOf groups => by simp only [Clause.map, Clause.mapM, groupsMapM_map groups]

theorem groupMapM_map : (group : List (Clause ρ)) →
    groupMapM action (groupMap f group) = groupMapM (action ∘ f) group
  | [] => rfl
  | clause :: group => by
    simp only [groupMap, groupMapM, clause.mapM_map, groupMapM_map group]

theorem groupsMapM_map : (groups : List (List (Clause ρ))) →
    groupsMapM action (groupsMap f groups) = groupsMapM (action ∘ f) groups
  | [] => rfl
  | group :: groups => by
    simp only [groupsMap, groupsMapM, groupMapM_map group, groupsMapM_map groups]

end

/-- Actions on references that were replaced. -/
theorem Shape.mapM_map [LawfulMonad m] (shape : Shape ρ) :
    (shape.map f).mapM action = shape.mapM (action ∘ f) := by
  cases shape with
  | object clauses =>
    simp only [Shape.map, Shape.mapM, groupMapM_map]
  | oneOf alternatives =>
    simp only [Shape.map, Shape.mapM, List.mapM_map]
  | literal | type | regex | arrayOf | anything => rfl

end Map

section Pure

variable [LawfulMonad m]

mutual

theorem Clause.mapM_pure : (clause : Clause ρ) → clause.mapM pure = (pure clause : m (Clause ρ))
  | .named _ _ => by simp [Clause.mapM]
  | .optional group => by simp [Clause.mapM, groupMapM_pure group]
  | .many _ => by simp [Clause.mapM]
  | .flatten _ => by simp [Clause.mapM]
  | .oneOf groups => by simp [Clause.mapM, groupsMapM_pure groups]

theorem groupMapM_pure : (group : List (Clause ρ)) →
    groupMapM pure group = (pure group : m (List (Clause ρ)))
  | [] => rfl
  | clause :: group => by simp [groupMapM, clause.mapM_pure, groupMapM_pure group]

theorem groupsMapM_pure : (groups : List (List (Clause ρ))) →
    groupsMapM pure groups = (pure groups : m (List (List (Clause ρ))))
  | [] => rfl
  | group :: groups => by simp [groupsMapM, groupMapM_pure group, groupsMapM_pure groups]

end

/-- Actions that do nothing leave the body as it is. -/
theorem Shape.mapM_pure (shape : Shape ρ) : shape.mapM pure = (pure shape : m (Shape ρ)) := by
  cases shape with
  | object clauses => simp [Shape.mapM, groupMapM_pure]
  | oneOf alternatives =>
    have halternatives : alternatives.mapM pure = (pure alternatives : m (List ρ)) := by
      simpa using List.mapM_pure (m := m) (l := alternatives) (f := id)
    simp [Shape.mapM, halternatives]
  | literal | type | regex | arrayOf | anything => simp [Shape.mapM]

end Pure

section Refs

variable [LawfulMonad m] (action : ρ → m σ)

mutual

theorem Clause.refs_mapM : (clause : Clause ρ) →
    Clause.refs <$> clause.mapM action = clause.refs.mapM action
  | .named _ _ => by simp [Clause.mapM, Clause.refs]
  | .optional group => by simp [Clause.mapM, Clause.refs, ← groupRefs_mapM group]
  | .many _ => by simp [Clause.mapM, Clause.refs]
  | .flatten _ => by simp [Clause.mapM, Clause.refs]
  | .oneOf groups => by simp [Clause.mapM, Clause.refs, ← groupsRefs_mapM groups]

theorem groupRefs_mapM : (group : List (Clause ρ)) →
    groupRefs <$> groupMapM action group = (groupRefs group).mapM action
  | [] => by simp [groupMapM, groupRefs]
  | clause :: group => by
    simp [groupMapM, groupRefs, List.mapM_append, ← clause.refs_mapM, ← groupRefs_mapM group]

theorem groupsRefs_mapM : (groups : List (List (Clause ρ))) →
    groupsRefs <$> groupsMapM action groups = (groupsRefs groups).mapM action
  | [] => by simp [groupsMapM, groupsRefs]
  | group :: groups => by
    simp [groupsMapM, groupsRefs, List.mapM_append, ← groupRefs_mapM group,
      ← groupsRefs_mapM groups]

end

/-- Actions on the references of a body are actions on the list of its references. -/
theorem Shape.refs_mapM (shape : Shape ρ) :
    Shape.refs <$> shape.mapM action = shape.refs.mapM action := by
  cases shape with
  | object clauses => simp [Shape.mapM, Shape.refs, ← groupRefs_mapM]
  | literal | type | regex | arrayOf | oneOf | anything => simp [Shape.mapM, Shape.refs]

end Refs

/-! ### Actions that fail -/

section Except

variable {ε : Type} {action : ρ → Except ε σ}

theorem mapM_eq_error {fault : ε} : {items : List ρ} → items.mapM action = .error fault →
    ∃ before item after, items = before ++ item :: after ∧
      (∀ earlier ∈ before, ∃ result, action earlier = .ok result) ∧ action item = .error fault
  | [], h => nomatch h
  | item :: items, h => by
    rw [List.mapM_cons] at h
    cases hitem : action item with
    | error fault' =>
      rw [hitem] at h
      cases h
      exact ⟨[], item, items, rfl, by simp, hitem⟩
    | ok result =>
      cases hitems : items.mapM action with
      | ok results =>
        rw [hitem, hitems] at h
        cases h
      | error fault' =>
        rw [hitem, hitems] at h
        cases h
        obtain ⟨before, failed, after, rfl, hbefore, hfailed⟩ := mapM_eq_error hitems
        exact ⟨item :: before, failed, after, rfl,
          List.forall_mem_cons.2 ⟨⟨result, hitem⟩, hbefore⟩, hfailed⟩

/-- An action on a body fails at the first reference on which it fails. -/
theorem Shape.mapM_eq_error {shape : Shape ρ} {fault : ε}
    (h : shape.mapM action = .error fault) :
    ∃ before item after, shape.refs = before ++ item :: after ∧
      (∀ earlier ∈ before, ∃ result, action earlier = .ok result) ∧ action item = .error fault := by
  have hrefs := shape.refs_mapM action
  rw [h] at hrefs
  exact JsonPattern.mapM_eq_error hrefs.symm

end Except

/-! ### Results of actions -/

namespace Lifting

/-- What is related to the result of a computation that may fail, if it has one. -/
def ofExcept (ε : Type) : Lifting Id (Except ε) where
  rel R x y := ∀ b, y = .ok b → R x b
  rel_pure h b hb := by cases hb; exact h
  rel_bind {_ _ _ _ _ _ _ y _ _} h hnext b hb := by
    cases y with
    | error => cases hb
    | ok result => exact hnext _ _ (h _ rfl) b hb

/-- What is related to the result of a computation from every state. -/
def ofState (α : Type) : Lifting Id (StateM α) where
  rel R x y := ∀ s, R x (y s).1
  rel_pure h _ := h
  rel_bind {_ _ _ _ _ _ _ y _ _} h hnext s := hnext _ _ (h s) (y s).2

end Lifting

/-- The references of a body and the results of an action on them. -/
theorem Shape.relates_of_mapM {ε : Type} {action : ρ → Except ε σ} {shape : Shape ρ}
    {shape' : Shape σ} (h : shape.mapM action = .ok shape') :
    shape.Relates (fun r s ↦ action r = .ok s) shape' := by
  have hsame : shape.Relates Eq shape := .refl fun _ _ ↦ rfl
  have hrel : (Lifting.ofExcept ε).rel (Shape.Relates fun r s ↦ action r = .ok s)
      (shape.mapM pure) (shape.mapM action) :=
    hsame.mapM_rel _ fun r r' _ hr s hs ↦ hr ▸ hs
  rw [shape.mapM_pure] at hrel
  exact hrel shape' h

/-- An action has one result for each reference, wherever the reference occurs. -/
theorem Shape.exists_result_of_mapM [Nonempty σ] {ε : Type} {action : ρ → Except ε σ}
    {shape : Shape ρ} {shape' : Shape σ} (h : shape.mapM action = .ok shape') :
    ∃ result : ρ → σ, shape' = shape.map result ∧ ∀ r ∈ shape.refs, action r = .ok (result r) := by
  obtain ⟨pairs, rfl, rfl, hpairs⟩ := shape.relates_of_mapM h
  have hresult (r : ρ) : ∃ s, ∀ s', action r = .ok s' → s' = s := by
    cases haction : action r with
    | error fault => exact ⟨Classical.arbitrary σ, nofun⟩
    | ok s => exact ⟨s, fun s' hs' ↦ (Except.ok.inj hs').symm⟩
  choose result hresult using hresult
  refine ⟨result, ?_, ?_⟩
  · rw [Shape.map_map]
    exact Shape.map_congr fun p hp ↦ hresult p.1 p.2 (hpairs p hp)
  · rw [Shape.refs_map]
    refine List.forall_mem_map.2 fun p hp ↦ ?_
    rw [← hresult p.1 p.2 (hpairs p hp)]
    exact hpairs p hp

/-- The references of a body and the results of an action on them from every state. -/
theorem Shape.relates_mapM_state {α : Type} {action : ρ → StateM α σ} {R : ρ → σ → Prop}
    {shape : Shape ρ} (h : ∀ r ∈ shape.refs, ∀ s, R r (action r s).1) (s : α) :
    shape.Relates R (shape.mapM action s).1 := by
  have hsame : shape.Relates Eq shape := .refl fun _ _ ↦ rfl
  have hrel : (Lifting.ofState α).rel (Shape.Relates R) (shape.mapM pure) (shape.mapM action) :=
    hsame.mapM_rel _ fun r r' hr hrr' ↦ hrr' ▸ h r hr
  rw [shape.mapM_pure] at hrel
  exact hrel s

end JsonPattern
