import JsonPattern.Proofs.Lockstep
import JsonPattern.Proofs.Pattern.Checks

/-!
# Bodies that differ in their references

Two bodies are related by a relation of references if they are the two sides of one body whose
references are pairs of the relation. What is done with the references of a body, one after the
other, is then done with those of the other body in lockstep.

## Main definitions

* `Shape.Relates` : two bodies are the sides of a body of related pairs.

## Main results

* `Shape.Relates.map` : related bodies stay related when their references are replaced.
* `Shape.Relates.check_map_eq` : related references that are replaced by the same leave the same
  check.
* `Shape.Relates.mapM_rel` : actions on the references of related bodies run in lockstep.
-/

namespace JsonPattern

variable {ρ σ τ : Type}

/-! ### Replacing references -/

mutual

/-- What a clause becomes depends on what its references become. -/
theorem Clause.map_congr {f h : ρ → σ} : (clause : Clause ρ) → (∀ r ∈ clause.refs, f r = h r) →
    clause.map f = clause.map h
  | .named name _, hrefs => congrArg (Clause.named name) (hrefs _ List.mem_cons_self)
  | .optional group, hrefs => congrArg Clause.optional (groupMap_congr group hrefs)
  | .many _, hrefs => congrArg Clause.many (hrefs _ List.mem_cons_self)
  | .flatten _, hrefs => congrArg Clause.flatten (hrefs _ List.mem_cons_self)
  | .oneOf groups, hrefs => congrArg Clause.oneOf (groupsMap_congr groups hrefs)

theorem groupMap_congr {f h : ρ → σ} : (group : List (Clause ρ)) →
    (∀ r ∈ groupRefs group, f r = h r) → groupMap f group = groupMap h group
  | [], _ => rfl
  | clause :: group, hrefs => congrArg₂ List.cons
      (clause.map_congr fun r hr ↦ hrefs r (List.mem_append_left _ hr))
      (groupMap_congr group fun r hr ↦ hrefs r (List.mem_append_right _ hr))

theorem groupsMap_congr {f h : ρ → σ} : (groups : List (List (Clause ρ))) →
    (∀ r ∈ groupsRefs groups, f r = h r) → groupsMap f groups = groupsMap h groups
  | [], _ => rfl
  | group :: groups, hrefs => congrArg₂ List.cons
      (groupMap_congr group fun r hr ↦ hrefs r (List.mem_append_left _ hr))
      (groupsMap_congr groups fun r hr ↦ hrefs r (List.mem_append_right _ hr))

end

namespace Shape

theorem map_map (f : ρ → σ) (h : σ → τ) (shape : Shape ρ) :
    (shape.map f).map h = shape.map (h ∘ f) := by
  cases shape with
  | object clauses => exact congrArg Shape.object (groupMap_groupMap f h clauses)
  | oneOf alternatives => exact congrArg Shape.oneOf (List.map_map ..)
  | literal | type | regex | arrayOf | anything => rfl

theorem map_id (shape : Shape ρ) : shape.map id = shape := by
  cases shape with
  | object clauses => exact congrArg Shape.object (groupMap_id clauses)
  | oneOf alternatives => exact congrArg Shape.oneOf (List.map_id alternatives)
  | literal | type | regex | arrayOf | anything => rfl

/-- What a body becomes depends on what its references become. -/
theorem map_congr {f h : ρ → σ} {shape : Shape ρ} (hrefs : ∀ r ∈ shape.refs, f r = h r) :
    shape.map f = shape.map h := by
  cases shape with
  | arrayOf element => exact congrArg Shape.arrayOf (hrefs _ List.mem_cons_self)
  | object clauses => exact congrArg Shape.object (groupMap_congr clauses hrefs)
  | oneOf alternatives => exact congrArg Shape.oneOf (List.map_congr_left hrefs)
  | literal | type | regex | anything => rfl

theorem refs_map (f : ρ → σ) (shape : Shape ρ) : (shape.map f).refs = shape.refs.map f := by
  cases shape with
  | object clauses => exact groupRefs_map f clauses
  | literal | type | regex | arrayOf | oneOf | anything => rfl

theorem unguardedRefs_map (f : ρ → σ) (shape : Shape ρ) :
    (shape.map f).unguardedRefs = shape.unguardedRefs.map f := by
  cases shape with
  | object clauses => exact groupFlattenTargets_map f clauses
  | literal | type | regex | arrayOf | oneOf | anything => rfl

/-- The check of a body with other references is its check with these references. -/
theorem check?_map (E : Engine) (f : ρ → σ) (shape : Shape ρ) :
    (shape.map f).check? E = (shape.check? E).map (Check.map f) := by
  cases shape with
  | type name => cases name <;> rfl
  | regex source => simp only [map, check?, Option.map_map]; rfl
  | literal | arrayOf | object | oneOf | anything => rfl

theorem check?_getD_map (E : Engine) (f : ρ → σ) (shape : Shape ρ) :
    ((shape.map f).check? E).getD .anything = ((shape.check? E).getD .anything).map f := by
  rw [check?_map]
  cases shape.check? E <;> rfl

end Shape

/-! ### Related references -/

/-- Two clauses are the sides of a clause of related pairs. -/
def Clause.Relates (R : ρ → σ → Prop) (clause : Clause ρ) (other : Clause σ) : Prop :=
  ∃ pairs : Clause (ρ × σ), pairs.map Prod.fst = clause ∧ pairs.map Prod.snd = other ∧
    ∀ p ∈ pairs.refs, R p.1 p.2

/-- Two lists of clauses are the sides of a list of clauses of related pairs. -/
def GroupRelates (R : ρ → σ → Prop) (group : List (Clause ρ)) (other : List (Clause σ)) : Prop :=
  ∃ pairs : List (Clause (ρ × σ)), groupMap Prod.fst pairs = group ∧
    groupMap Prod.snd pairs = other ∧ ∀ p ∈ groupRefs pairs, R p.1 p.2

/-- Two lists of groups are the sides of a list of groups of related pairs. -/
def GroupsRelates (R : ρ → σ → Prop) (groups : List (List (Clause ρ)))
    (others : List (List (Clause σ))) : Prop :=
  ∃ pairs : List (List (Clause (ρ × σ))), groupsMap Prod.fst pairs = groups ∧
    groupsMap Prod.snd pairs = others ∧ ∀ p ∈ groupsRefs pairs, R p.1 p.2

/-- Two bodies are the sides of a body of related pairs. -/
def Shape.Relates (R : ρ → σ → Prop) (shape : Shape ρ) (other : Shape σ) : Prop :=
  ∃ pairs : Shape (ρ × σ), pairs.map Prod.fst = shape ∧ pairs.map Prod.snd = other ∧
    ∀ p ∈ pairs.refs, R p.1 p.2

section Relates

variable {R : ρ → σ → Prop}

theorem GroupRelates.nil : GroupRelates R [] [] := ⟨[], rfl, rfl, by simp [groupRefs]⟩

theorem GroupRelates.cons {clause : Clause ρ} {other : Clause σ} {group : List (Clause ρ)}
    {others : List (Clause σ)} (h : clause.Relates R other) (hrest : GroupRelates R group others) :
    GroupRelates R (clause :: group) (other :: others) := by
  obtain ⟨pair, rfl, rfl, hpair⟩ := h
  obtain ⟨pairs, rfl, rfl, hpairs⟩ := hrest
  exact ⟨pair :: pairs, rfl, rfl, List.forall_mem_append.2 ⟨hpair, hpairs⟩⟩

theorem GroupsRelates.nil : GroupsRelates R [] [] := ⟨[], rfl, rfl, by simp [groupsRefs]⟩

theorem GroupsRelates.cons {group : List (Clause ρ)} {other : List (Clause σ)}
    {groups : List (List (Clause ρ))} {others : List (List (Clause σ))}
    (h : GroupRelates R group other) (hrest : GroupsRelates R groups others) :
    GroupsRelates R (group :: groups) (other :: others) := by
  obtain ⟨pair, rfl, rfl, hpair⟩ := h
  obtain ⟨pairs, rfl, rfl, hpairs⟩ := hrest
  exact ⟨pair :: pairs, rfl, rfl, List.forall_mem_append.2 ⟨hpair, hpairs⟩⟩

/-- Two lists of related references are the sides of a list of related pairs. -/
theorem exists_pairs {xs : List ρ} {ys : List σ} (h : List.Forall₂ R xs ys) :
    ∃ pairs : List (ρ × σ), pairs.map Prod.fst = xs ∧ pairs.map Prod.snd = ys ∧
      ∀ p ∈ pairs, R p.1 p.2 := by
  induction h with
  | nil => exact ⟨[], rfl, rfl, by simp⟩
  | @cons x y _ _ hab _ ih =>
    obtain ⟨pairs, rfl, rfl, hpairs⟩ := ih
    exact ⟨(x, y) :: pairs, rfl, rfl, List.forall_mem_cons.2 ⟨hab, hpairs⟩⟩

/-- The sides of a list of related pairs are related. -/
theorem forall₂_of_pairs {pairs : List (ρ × σ)} (h : ∀ p ∈ pairs, R p.1 p.2) :
    List.Forall₂ R (pairs.map Prod.fst) (pairs.map Prod.snd) := by
  rw [List.forall₂_map_left_iff, List.forall₂_map_right_iff, List.forall₂_same]
  exact h

namespace Shape.Relates

variable {E : Engine} {shape : Shape ρ} {other : Shape σ}

/-- A body is related to itself by a relation that holds of every reference and itself. -/
theorem refl {R : ρ → ρ → Prop} (h : ∀ r ∈ shape.refs, R r r) : shape.Relates R shape := by
  refine ⟨shape.map fun r ↦ (r, r), ?_, ?_, ?_⟩
  · exact (shape.map_map _ _).trans shape.map_id
  · exact (shape.map_map _ _).trans shape.map_id
  · rw [refs_map]
    exact List.forall_mem_map.2 h

theorem mono {S : ρ → σ → Prop} (h : shape.Relates R other)
    (hRS : ∀ a b, a ∈ shape.refs → R a b → S a b) : shape.Relates S other := by
  obtain ⟨pairs, rfl, rfl, hpairs⟩ := h
  refine ⟨pairs, rfl, rfl, fun p hp ↦ hRS _ _ ?_ (hpairs p hp)⟩
  rw [refs_map]
  exact List.mem_map_of_mem hp

/-- At the position of a reference of the one body, the other one has a related reference. -/
theorem exists_right (h : shape.Relates R other) {i : Nat} {a : ρ}
    (ha : shape.refs[i]? = some a) : ∃ b, other.refs[i]? = some b ∧ R a b := by
  obtain ⟨pairs, rfl, rfl, hpairs⟩ := h
  rw [refs_map, List.getElem?_map] at ha
  obtain ⟨p, hp, rfl⟩ := Option.map_eq_some_iff.1 ha
  exact ⟨p.2, by rw [refs_map, List.getElem?_map, hp]; rfl, hpairs p (List.mem_of_getElem? hp)⟩

theorem exists_left (h : shape.Relates R other) {i : Nat} {b : σ}
    (hb : other.refs[i]? = some b) : ∃ a, shape.refs[i]? = some a ∧ R a b := by
  obtain ⟨pairs, rfl, rfl, hpairs⟩ := h
  rw [refs_map, List.getElem?_map] at hb
  obtain ⟨p, hp, rfl⟩ := Option.map_eq_some_iff.1 hb
  exact ⟨p.1, by rw [refs_map, List.getElem?_map, hp]; rfl, hpairs p (List.mem_of_getElem? hp)⟩

/-- The references of related bodies may be kept in mind. -/
theorem of_refs (h : shape.Relates R other) :
    shape.Relates (fun a b ↦ a ∈ shape.refs ∧ b ∈ other.refs ∧ R a b) other := by
  obtain ⟨pairs, rfl, rfl, hpairs⟩ := h
  refine ⟨pairs, rfl, rfl, fun p hp ↦ ⟨?_, ?_, hpairs p hp⟩⟩
  · rw [refs_map]
    exact List.mem_map_of_mem hp
  · rw [refs_map]
    exact List.mem_map_of_mem hp

theorem map {ρ' σ' : Type} {S : ρ' → σ' → Prop} (h : shape.Relates R other) {f : ρ → ρ'}
    {f' : σ → σ'} (hf : ∀ a b, R a b → S (f a) (f' b)) :
    (shape.map f).Relates S (other.map f') := by
  obtain ⟨pairs, rfl, rfl, hpairs⟩ := h
  refine ⟨pairs.map (Prod.map f f'), ?_, ?_, ?_⟩
  · rw [map_map, map_map]; rfl
  · rw [map_map, map_map]; rfl
  · rw [refs_map]
    exact List.forall_mem_map.2 fun p hp ↦ hf _ _ (hpairs p hp)

/-- Related references that are replaced by the same leave the same body. -/
theorem map_eq (h : shape.Relates R other) {f : ρ → τ} {f' : σ → τ}
    (hf : ∀ a b, R a b → f a = f' b) : shape.map f = other.map f' := by
  obtain ⟨pairs, rfl, rfl, hpairs⟩ := h
  rw [map_map, map_map]
  exact map_congr fun p hp ↦ hf _ _ (hpairs p hp)

theorem unguardedRefs_map_eq (h : shape.Relates R other) {f : ρ → τ} {f' : σ → τ}
    (hf : ∀ a b, R a b → f a = f' b) :
    shape.unguardedRefs.map f = other.unguardedRefs.map f' := by
  rw [← unguardedRefs_map, h.map_eq hf, unguardedRefs_map]

theorem check_map_eq (h : shape.Relates R other) {f : ρ → τ} {f' : σ → τ}
    (hf : ∀ a b, R a b → f a = f' b) :
    ((shape.check? E).getD .anything).map f = ((other.check? E).getD .anything).map f' := by
  rw [← check?_getD_map, h.map_eq hf, check?_getD_map]

end Shape.Relates

end Relates

/-! ### Actions on references -/

section Actions

variable {m m' : Type → Type} [Monad m] [Monad m'] (L : Lifting m m') {α β : Type}
  {action : ρ → m α} {action' : σ → m' β} {R : α → β → Prop}

mutual

/-- Actions on the references of both sides of a clause of pairs, in turn. -/
theorem Clause.mapM_rel : (pairs : Clause (ρ × σ)) →
    (∀ p ∈ pairs.refs, L.rel R (action p.1) (action' p.2)) →
    L.rel (Clause.Relates R) ((pairs.map Prod.fst).mapM action)
      ((pairs.map Prod.snd).mapM action')
  | .named name _, h => L.rel_bind (h _ List.mem_cons_self) fun a b hab ↦
      L.rel_pure ⟨.named name (a, b), rfl, rfl, List.forall_mem_singleton.2 hab⟩
  | .optional pairs, h => L.rel_bind (groupMapM_rel pairs h) fun _ _ ⟨pairs, hfst, hsnd, hR⟩ ↦
      L.rel_pure ⟨.optional pairs, congrArg Clause.optional hfst, congrArg Clause.optional hsnd, hR⟩
  | .many _, h => L.rel_bind (h _ List.mem_cons_self) fun a b hab ↦
      L.rel_pure ⟨.many (a, b), rfl, rfl, List.forall_mem_singleton.2 hab⟩
  | .flatten _, h => L.rel_bind (h _ List.mem_cons_self) fun a b hab ↦
      L.rel_pure ⟨.flatten (a, b), rfl, rfl, List.forall_mem_singleton.2 hab⟩
  | .oneOf pairs, h => L.rel_bind (groupsMapM_rel pairs h) fun _ _ ⟨pairs, hfst, hsnd, hR⟩ ↦
      L.rel_pure ⟨.oneOf pairs, congrArg Clause.oneOf hfst, congrArg Clause.oneOf hsnd, hR⟩

theorem groupMapM_rel : (pairs : List (Clause (ρ × σ))) →
    (∀ p ∈ groupRefs pairs, L.rel R (action p.1) (action' p.2)) →
    L.rel (GroupRelates R) (groupMapM action (groupMap Prod.fst pairs))
      (groupMapM action' (groupMap Prod.snd pairs))
  | [], _ => L.rel_pure .nil
  | pair :: pairs, h => by
    obtain ⟨hpair, hpairs⟩ := List.forall_mem_append.1 h
    exact L.rel_bind (pair.mapM_rel hpair) fun _ _ hfirst ↦
      L.rel_bind (groupMapM_rel pairs hpairs) fun _ _ hrest ↦ L.rel_pure (.cons hfirst hrest)

theorem groupsMapM_rel : (pairs : List (List (Clause (ρ × σ)))) →
    (∀ p ∈ groupsRefs pairs, L.rel R (action p.1) (action' p.2)) →
    L.rel (GroupsRelates R) (groupsMapM action (groupsMap Prod.fst pairs))
      (groupsMapM action' (groupsMap Prod.snd pairs))
  | [], _ => L.rel_pure .nil
  | pair :: pairs, h => by
    obtain ⟨hpair, hpairs⟩ := List.forall_mem_append.1 h
    exact L.rel_bind (groupMapM_rel pair hpair) fun _ _ hfirst ↦
      L.rel_bind (groupsMapM_rel pairs hpairs) fun _ _ hrest ↦ L.rel_pure (.cons hfirst hrest)

end

/-- Actions on the references of related bodies, in turn. -/
theorem Shape.Relates.mapM_rel [LawfulMonad m] [LawfulMonad m'] {S : ρ → σ → Prop}
    {shape : Shape ρ} {other : Shape σ} (h : shape.Relates S other)
    (haction : ∀ a b, a ∈ shape.refs → S a b → L.rel R (action a) (action' b)) :
    L.rel (Shape.Relates R) (shape.mapM action) (other.mapM action') := by
  obtain ⟨pairs, rfl, rfl, hpairs⟩ := h
  have h : ∀ p ∈ pairs.refs, L.rel R (action p.1) (action' p.2) := fun p hp ↦
    haction _ _ (by rw [refs_map]; exact List.mem_map_of_mem hp) (hpairs p hp)
  cases pairs with
  | literal value => exact L.rel_pure ⟨.literal value, rfl, rfl, by simp [refs]⟩
  | type name => exact L.rel_pure ⟨.type name, rfl, rfl, by simp [refs]⟩
  | regex source => exact L.rel_pure ⟨.regex source, rfl, rfl, by simp [refs]⟩
  | anything => exact L.rel_pure ⟨.anything, rfl, rfl, by simp [refs]⟩
  | arrayOf element =>
    exact L.rel_bind (h _ List.mem_cons_self) fun a b hab ↦
      L.rel_pure ⟨.arrayOf (a, b), rfl, rfl, List.forall_mem_singleton.2 hab⟩
  | object pairs =>
    refine L.rel_bind (groupMapM_rel L pairs h) fun _ _ ⟨pairs, hfst, hsnd, hR⟩ ↦ ?_
    exact L.rel_pure ⟨.object pairs, congrArg Shape.object hfst, congrArg Shape.object hsnd, hR⟩
  | oneOf pairs =>
    have hitems := forall₂_of_pairs (R := fun a b ↦ L.rel R (action a) (action' b)) h
    refine L.rel_bind (L.mapM hitems fun _ _ h ↦ h) fun _ _ hall ↦ ?_
    obtain ⟨pairs, hfst, hsnd, hR⟩ := exists_pairs hall
    exact L.rel_pure ⟨.oneOf pairs, congrArg Shape.oneOf hfst, congrArg Shape.oneOf hsnd, hR⟩

end Actions

end JsonPattern
