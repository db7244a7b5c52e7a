import JsonPattern.LabelSet
import Mathlib.Data.List.Perm.Basic

/-!
# Lists and label sets up to order

Two lists are matched by a relation if the elements of the first are related, one by one, to those
of the second in some order. What counts or tests the elements of a list does not tell matched lists
apart, and two label sets with the same elements are matched by equality.
-/

namespace JsonPattern

/-! ### Matched lists -/

section Matched

variable {α β γ δ : Type} {R : α → β → Prop} {S : γ → δ → Prop} {as as' : List α} {bs bs' : List β}

/-- The elements of a list are related to those of another one in some order. -/
def Matched (R : α → β → Prop) (as : List α) (bs : List β) : Prop :=
  ∃ inOrder, List.Forall₂ R as inOrder ∧ inOrder.Perm bs

namespace Matched

theorem of_forall₂ (h : List.Forall₂ R as bs) : Matched R as bs := ⟨bs, h, .refl bs⟩

theorem of_perm {R : α → α → Prop} (hR : ∀ a ∈ as, R a a) (h : as.Perm as') : Matched R as as' :=
  ⟨as, List.forall₂_same.2 hR, h⟩

theorem nil : Matched R [] [] := of_forall₂ .nil

theorem singleton {a : α} {b : β} (h : R a b) : Matched R [a] [b] := of_forall₂ (.cons h .nil)

theorem trans_perm (h : Matched R as bs) (hperm : bs.Perm bs') : Matched R as bs' := by
  obtain ⟨inOrder, hrelated, hinOrder⟩ := h
  exact ⟨inOrder, hrelated, hinOrder.trans hperm⟩

theorem perm_trans (hperm : as.Perm as') (h : Matched R as' bs) : Matched R as bs := by
  obtain ⟨inOrder, hrelated, hinOrder⟩ := h
  obtain ⟨between, hbetween, hperm⟩ := List.perm_comp_forall₂ hperm hrelated
  exact ⟨between, hbetween, hperm.trans hinOrder⟩

theorem append (h : Matched R as bs) (h' : Matched R as' bs') :
    Matched R (as ++ as') (bs ++ bs') := by
  obtain ⟨inOrder, hrelated, hperm⟩ := h
  obtain ⟨inOrder', hrelated', hperm'⟩ := h'
  exact ⟨inOrder ++ inOrder', List.rel_append hrelated hrelated', hperm.append hperm'⟩

theorem map {f : α → γ} {g : β → δ} (h : Matched R as bs)
    (hfg : ∀ a b, R a b → S (f a) (g b)) : Matched S (as.map f) (bs.map g) := by
  obtain ⟨inOrder, hrelated, hperm⟩ := h
  exact ⟨inOrder.map g, List.rel_map (fun _ _ hab ↦ hfg _ _ hab) hrelated, hperm.map g⟩

theorem flatMap {f : α → List γ} {g : β → List δ} (h : Matched R as bs)
    (hfg : ∀ a b, R a b → Matched S (f a) (g b)) : Matched S (as.flatMap f) (bs.flatMap g) := by
  obtain ⟨inOrder, hrelated, hperm⟩ := h
  refine trans_perm ?_ (hperm.flatMap_right g)
  clear hperm
  induction hrelated with
  | nil => exact nil
  | cons hab _ ih => exact (hfg _ _ hab).append ih

theorem filter {p : α → Bool} {q : β → Bool} (h : Matched R as bs)
    (hpq : ∀ a b, R a b → p a = q b) : Matched R (as.filter p) (bs.filter q) := by
  obtain ⟨inOrder, hrelated, hperm⟩ := h
  exact ⟨inOrder.filter q, List.rel_filter (fun a b hab ↦ by simp only [hpq a b hab]) hrelated,
    hperm.filter q⟩

theorem length_eq (h : Matched R as bs) : as.length = bs.length := by
  obtain ⟨inOrder, hrelated, hperm⟩ := h
  exact hrelated.length_eq.trans hperm.length_eq

theorem exists_mem_iff {P : α → Prop} {Q : β → Prop} (h : Matched R as bs)
    (hPQ : ∀ a b, R a b → (P a ↔ Q b)) : (∃ a ∈ as, P a) ↔ ∃ b ∈ bs, Q b := by
  obtain ⟨inOrder, hrelated, hperm⟩ := h
  simp only [← hperm.mem_iff]
  clear hperm
  induction hrelated with
  | nil => simp
  | cons hab _ ih => simp only [List.mem_cons, exists_eq_or_imp, hPQ _ _ hab, ih]

theorem exists_of_mem {a : α} (h : Matched R as bs) (ha : a ∈ as) : ∃ b ∈ bs, R a b := by
  obtain ⟨inOrder, hrelated, hperm⟩ := h
  simp only [← hperm.mem_iff]
  clear hperm
  induction hrelated with
  | nil => exact absurd ha List.not_mem_nil
  | cons hab _ ih =>
    rcases List.mem_cons.1 ha with rfl | ha
    · exact ⟨_, List.mem_cons_self, hab⟩
    · obtain ⟨b, hb, hab⟩ := ih ha
      exact ⟨b, List.mem_cons_of_mem _ hb, hab⟩

theorem perm (h : Matched Eq as as') : as.Perm as' := by
  obtain ⟨inOrder, hrelated, hperm⟩ := h
  rw [List.forall₂_eq_eq_eq] at hrelated
  exact hrelated ▸ hperm

theorem eq_nil (h : Matched R [] bs) : bs = [] := List.length_eq_zero_iff.1 h.length_eq.symm

theorem exists_singleton {a : α} (h : Matched R [a] bs) : ∃ b, bs = [b] ∧ R a b := by
  obtain ⟨inOrder, hrelated, hperm⟩ := h
  obtain ⟨b, rest, hab, hnil, rfl⟩ := List.forall₂_cons_left_iff.1 hrelated
  obtain rfl := List.forall₂_nil_left_iff.1 hnil
  exact ⟨b, (List.singleton_perm.1 hperm).symm, hab⟩

end Matched

end Matched

/-! ### Label sets with the same elements -/

namespace LabelSet

/-- Two label sets have the same elements. -/
def Same (s t : LabelSet) : Prop := ∀ a, a ∈ s ↔ a ∈ t

namespace Same

variable {s s' t t' : LabelSet}

protected theorem refl (s : LabelSet) : s.Same s := fun _ ↦ Iff.rfl

theorem perm (h : s.Same t) : s.toList.Perm t.toList :=
  (List.perm_ext_iff_of_nodup s.nodup t.nodup).2 h

theorem union (h : s.Same t) (h' : s'.Same t') : (s ∪ s').Same (t ∪ t') := fun a ↦ by
  rw [mem_union, mem_union, h a, h' a]

theorem filter {p q : String → Bool} (h : s.Same t) (hpq : ∀ a, p a = q a) :
    (s.filter p).Same (t.filter q) := fun a ↦ by
  rw [mem_filter, mem_filter, h a, hpq a]

theorem isEmpty_eq (h : s.Same t) : s.isEmpty = t.isEmpty := by
  rw [Bool.eq_iff_iff, isEmpty_iff, isEmpty_iff]
  exact forall_congr' fun a ↦ not_congr (h a)

theorem ofList {as bs : List String} (h : ∀ a, a ∈ as ↔ a ∈ bs) :
    (LabelSet.ofList as).Same (LabelSet.ofList bs) := fun a ↦ by
  rw [mem_ofList, mem_ofList, h a]

/-- The unions of matched lists of sets have the same elements. -/
theorem unions_map {α β : Type} {R : α → β → Prop} {as : List α} {bs : List β} {f : α → LabelSet}
    {g : β → LabelSet} (h : Matched R as bs) (hfg : ∀ a b, R a b → (f a).Same (g b)) :
    (unions (as.map f)).Same (unions (bs.map g)) := fun a ↦ by
  rw [mem_unions, mem_unions]
  exact (h.map hfg).exists_mem_iff fun s t hst ↦ hst a

theorem unions_perm {α : Type} {as bs : List α} {f g : α → LabelSet} (h : as.Perm bs)
    (hfg : ∀ a, (f a).Same (g a)) : (unions (as.map f)).Same (unions (bs.map g)) :=
  unions_map (.of_perm (fun _ _ ↦ rfl) h) fun a _ ha ↦ ha ▸ hfg a

end Same

end LabelSet

end JsonPattern
