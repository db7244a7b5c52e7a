import Mathlib.Data.List.Forall2

/-!
# Computations in lockstep

Two computations run in lockstep if whatever one of them does is answered by the other. A `Lifting`
says what a relation between results means for computations with effects. It respects results and
sequences, so it carries over to everything that is composed of them, such as loops over lists.

`Lockstep` is the lifting for computations that may fail: both succeed, with related results, or
both fail, with faults that correspond to each other. Some faults of the first computation may
excuse the second one from answering at all.
-/

namespace JsonPattern

variable {α α' β β' γ γ' : Type}

/-- What relations between results mean for computations with effects of two sorts. -/
structure Lifting (m m' : Type → Type) [Monad m] [Monad m'] where
  /-- Computations whose results are related. -/
  rel {α β : Type} : (α → β → Prop) → m α → m' β → Prop
  /-- Related results are related as computations. -/
  rel_pure {α β : Type} {R : α → β → Prop} {a : α} {b : β} (h : R a b) : rel R (pure a) (pure b)
  /-- Related computations that are continued from related results are related. -/
  rel_bind {α β α' β' : Type} {R : α → β → Prop} {S : α' → β' → Prop} {x : m α} {y : m' β}
    {next : α → m α'} {next' : β → m' β'} (h : rel R x y)
    (hnext : ∀ a b, R a b → rel S (next a) (next' b)) : rel S (x >>= next) (y >>= next')

namespace Lifting

variable {m m' : Type → Type} [Monad m] [Monad m'] (L : Lifting m m')

/-- Loops over lists whose items are related, from related states. -/
theorem foldlM {R : α → α' → Prop} {S : β → β' → Prop} {step : β → α → m β}
    {step' : β' → α' → m' β'} {xs : List α} {ys : List α'} (hitems : List.Forall₂ R xs ys)
    (hstep : ∀ s t a b, S s t → R a b → L.rel S (step s a) (step' t b)) {s : β} {t : β'}
    (hstate : S s t) : L.rel S (xs.foldlM step s) (ys.foldlM step' t) := by
  induction hitems generalizing s t with
  | nil => exact L.rel_pure hstate
  | cons hab _ ih => exact L.rel_bind (hstep _ _ _ _ hstate hab) fun _ _ hnext ↦ ih hnext

/-- Actions on the items of lists whose items are related, in turn. -/
theorem mapM [LawfulMonad m] [LawfulMonad m'] {R : α → α' → Prop} {S : β → β' → Prop}
    {action : α → m β} {action' : α' → m' β'} {xs : List α} {ys : List α'}
    (hitems : List.Forall₂ R xs ys) (h : ∀ a b, R a b → L.rel S (action a) (action' b)) :
    L.rel (List.Forall₂ S) (xs.mapM action) (ys.mapM action') := by
  induction hitems with
  | nil => exact L.rel_pure .nil
  | cons hab _ ih =>
    rw [List.mapM_cons, List.mapM_cons]
    exact L.rel_bind (h _ _ hab) fun _ _ hfirst ↦
      L.rel_bind ih fun _ _ hrest ↦ L.rel_pure (.cons hfirst hrest)

/-- Computations with the same state end in the same state, and their results are related. -/
def state (σ : Type) : Lifting (StateM σ) (StateM σ) where
  rel R x y := ∀ s, R (x s).1 (y s).1 ∧ (x s).2 = (y s).2
  rel_pure h _ := ⟨h, rfl⟩
  rel_bind {_ _ _ _ _ S x y next next'} h hnext s := by
    obtain ⟨hresult, hstate⟩ := h s
    change S (next (x s).1 (x s).2).1 (next' (y s).1 (y s).2).1 ∧
      (next (x s).1 (x s).2).2 = (next' (y s).1 (y s).2).2
    rw [← hstate]
    exact hnext _ _ hresult _

end Lifting

/-! ### Failures -/

variable {ε ε' : Type}

/-- Two computations that may fail run in lockstep. -/
inductive Lockstep (excused : ε → Prop) (same : ε → ε' → Prop) (R : α → β → Prop) :
    Except ε α → Except ε' β → Prop
  /-- Both succeed. -/
  | ok {a : α} {b : β} (h : R a b) : Lockstep excused same R (.ok a) (.ok b)
  /-- Both fail. -/
  | error {e : ε} {e' : ε'} (h : same e e') : Lockstep excused same R (.error e) (.error e')
  /-- The first one fails in a way that says nothing about the second one. -/
  | excused {e : ε} (h : excused e) (outcome : Except ε' β) :
      Lockstep excused same R (.error e) outcome

namespace Lockstep

variable {excused : ε → Prop} {same : ε → ε' → Prop}

theorem bind {R : α → β → Prop} {S : γ → γ' → Prop} {x : Except ε α} {y : Except ε' β}
    {next : α → Except ε γ} {next' : β → Except ε' γ'} (h : Lockstep excused same R x y)
    (hnext : ∀ a b, R a b → Lockstep excused same S (next a) (next' b)) :
    Lockstep excused same S (x >>= next) (y >>= next') := by
  cases h with
  | ok h => exact hnext _ _ h
  | error h => exact .error h
  | excused h => exact .excused h _

/-- The result of the first computation may be kept in mind. -/
theorem of_result {R : α → β → Prop} {x : Except ε α} {y : Except ε' β}
    (h : Lockstep excused same R x y) :
    Lockstep excused same (fun a b ↦ x = .ok a ∧ R a b) x y := by
  cases h with
  | ok h => exact .ok ⟨rfl, h⟩
  | error h => exact .error h
  | excused h => exact .excused h _

/-- Lockstep as a lifting. -/
def lifting (excused : ε → Prop) (same : ε → ε' → Prop) : Lifting (Except ε) (Except ε') where
  rel := Lockstep excused same
  rel_pure := .ok
  rel_bind := bind

/-- If no fault is excused, one of two computations in lockstep succeeds exactly if the other one
does, with the same result. -/
theorem ok_iff {x : Except ε α} {y : Except ε' α}
    (h : Lockstep (fun _ ↦ False) same Eq x y) (a : α) : x = .ok a ↔ y = .ok a := by
  cases h with
  | ok h => simp [h]
  | error h => constructor <;> nofun
  | excused h => exact h.elim

/-- If faults correspond to themselves only, two computations in lockstep have the same outcome,
or the first one fails with an excuse. -/
theorem eq_of_not_excused {x y : Except ε α} (h : Lockstep excused Eq Eq x y)
    (hx : ∀ e, x = .error e → ¬ excused e) : x = y := by
  cases h with
  | ok h => rw [h]
  | error h => rw [h]
  | excused h => exact absurd h (hx _ rfl)

end Lockstep

end JsonPattern
