import JsonPattern.Proofs.Validator.Splicing
import JsonPattern.Validator.Calls
import Mathlib.Algebra.Order.BigOperators.Group.List
import Mathlib.Algebra.Order.Group.Nat
import Mathlib.Algebra.Ring.Nat
import Mathlib.Data.List.Induction

/-!
# Disjunctions flattened

Flattening replaces every disjunction by its alternatives, from left to right and however deep,
until leaves alone are left. In a ranked table one function does so, the one that satisfies the
equation `Table.Flattens`.

The loop that finds the leaves below pending checks takes one off in each round. A disjunction is
replaced by its alternatives, so what all pending checks are flattened to, added to the leaves that
are found already, stays the same, while the number of checks that are still to be looked at goes
down by one (`Table.unravel_eq`). A disjunction that is met again is opened again, and this number
counts it again.
-/

namespace JsonPattern

/-! ### First occurrences -/

section FirstOccurrences

variable {α : Type} [DecidableEq α]

theorem eraseDups_concat (as : List α) (a : α) :
    (as ++ [a]).eraseDups = if a ∈ as then as.eraseDups else as.eraseDups ++ [a] := by
  rw [List.eraseDups_append, List.removeAll]
  split
  · next ha => simp [ha]
  · next ha => simp [ha, List.eraseDups_cons]

/-- What is left when repetitions are dropped stands in the order of the first occurrences. -/
theorem idxOf_eraseDups_lt_iff {as : List α} {a b : α} (ha : a ∈ as) (hb : b ∈ as) :
    as.eraseDups.idxOf a < as.eraseDups.idxOf b ↔ as.idxOf a < as.idxOf b := by
  induction as using List.reverseRecOn with
  | nil => exact absurd ha List.not_mem_nil
  | append_singleton as last ih =>
    rw [eraseDups_concat]
    by_cases hlast : last ∈ as
    · have hmem {c : α} (hc : c ∈ as ++ [last]) : c ∈ as :=
        (List.mem_append.1 hc).elim id fun hc ↦ List.mem_singleton.1 hc ▸ hlast
      rw [if_pos hlast, List.idxOf_append_of_mem (hmem ha), List.idxOf_append_of_mem (hmem hb)]
      exact ih (hmem ha) (hmem hb)
    · have hbefore {c : α} (hc : c ∈ as) :
          as.idxOf c < as.length ∧ as.eraseDups.idxOf c < as.eraseDups.length :=
        ⟨List.idxOf_lt_length_of_mem hc, List.idxOf_lt_length_of_mem (List.mem_eraseDups.2 hc)⟩
      simp only [if_neg hlast, List.idxOf_append, List.mem_eraseDups]
      rcases List.mem_append.1 ha with ha' | ha' <;> rcases List.mem_append.1 hb with hb' | hb'
      · simpa only [if_pos ha', if_pos hb'] using ih ha' hb'
      · obtain rfl := List.mem_singleton.1 hb'
        have hlt := hbefore ha'
        simp only [if_pos ha', if_neg hlast, List.idxOf_cons_self]
        omega
      · obtain rfl := List.mem_singleton.1 ha'
        have hlt := hbefore hb'
        simp only [if_pos hb', if_neg hlast, List.idxOf_cons_self]
        omega
      · rw [List.mem_singleton.1 ha', List.mem_singleton.1 hb']
        exact iff_of_false (lt_irrefl _) (lt_irrefl _)

end FirstOccurrences

namespace Table

variable {ρ : Type} {T : Table ρ} {rank : ρ → Nat}

/-- A function flattens checks: a disjunction to what its alternatives are flattened to, from left
to right, and any other check to itself. -/
def Flattens (T : Table ρ) (flat : ρ → List ρ) : Prop :=
  ∀ r, flat r = match T.check r with
    | .oneOf alternatives => alternatives.flatMap flat
    | _ => [r]

/-- A function counts the checks that are looked at where a check is flattened. -/
def Counts (T : Table ρ) (visits : ρ → Nat) : Prop :=
  ∀ r, visits r = match T.check r with
    | .oneOf alternatives => (alternatives.map visits).sum + 1
    | _ => 1

/-- The number of checks that are looked at below a check, over at most `hops` references. -/
def visitsWithin (T : Table ρ) : Nat → ρ → Nat
  | 0, _ => 1
  | hops + 1, r =>
    match T.check r with
    | .oneOf alternatives => (alternatives.map (visitsWithin T hops)).sum + 1
    | _ => 1

/-- The number of checks that are looked at below several checks. -/
def visits (T : Table ρ) (rs : List ρ) : Nat := (rs.map (T.visitsWithin T.hops)).sum

/-! ### One function flattens -/

theorem Ranked.visitsWithin_eq (h : T.Ranked Set.univ rank) {m n : Nat} {r : ρ} (hm : rank r < m)
    (hn : rank r < n) : T.visitsWithin n r = T.visitsWithin m r := by
  induction m generalizing n r with
  | zero => exact absurd hm (Nat.not_lt_zero _)
  | succ m ih =>
    obtain ⟨n, rfl⟩ : ∃ k, n = k + 1 := ⟨n - 1, by omega⟩
    rw [visitsWithin, visitsWithin]
    cases hcheck : T.check r with
    | oneOf alternatives =>
      have halternatives : ∀ a ∈ alternatives, T.visitsWithin n a = T.visitsWithin m a :=
        fun a ha ↦ by
          have hlt := (h.mem_of_oneOf trivial hcheck ha).2
          exact ih (by omega) (by omega)
      exact congrArg (·.sum + 1) (List.map_congr_left halternatives)
    | kind | literal | regex | arrayOf | object | anything => rfl

theorem Ranked.counts_visitsWithin (h : T.Ranked Set.univ rank) :
    T.Counts (T.visitsWithin T.hops) := fun r ↦
  h.visitsWithin_eq (Nat.lt_succ_of_lt (h.lt_hops r trivial)) (h.lt_hops r trivial)

/-- In a ranked table, exactly one function flattens. -/
theorem Ranked.flattens_iff (h : T.Ranked Set.univ rank) {flat : ρ → List ρ} :
    T.Flattens flat ↔ flat = T.leavesWithin T.hops := by
  constructor
  · intro hflat
    have hwithin (hops : Nat) (r : ρ) (hr : rank r < hops) :
        flat r = T.leavesWithin hops r := by
      induction hops generalizing r with
      | zero => exact absurd hr (Nat.not_lt_zero _)
      | succ hops ih =>
        rw [hflat r, leavesWithin]
        cases hcheck : T.check r with
        | oneOf alternatives =>
          refine List.flatMap_congr fun a ha ↦ ih a ?_
          have hlt := (h.mem_of_oneOf trivial hcheck ha).2
          omega
        | kind | literal | regex | arrayOf | object | anything => rfl
    funext r
    exact hwithin T.hops r (h.lt_hops r trivial)
  · rintro rfl r
    exact h.leavesWithin_eq trivial (Nat.lt_succ_of_lt (h.lt_hops r trivial)) (h.lt_hops r trivial)

variable [DecidableEq ρ]

/-- Every leaf is kept where it is met first. -/
theorem foldl_addLeaf_eq_eraseDups (leaves : List ρ) :
    leaves.foldl addLeaf [] = leaves.eraseDups := by
  induction leaves using List.reverseRecOn with
  | nil => rfl
  | append_singleton leaves leaf ih =>
    rw [List.foldl_append, ih, eraseDups_concat]
    simp only [List.foldl_cons, List.foldl_nil, addLeaf, List.mem_eraseDups]

theorem splice_eq_eraseDups (rs : List ρ) : T.splice rs = (T.leaves rs).eraseDups := by
  rw [splice_eq_foldl, foldl_addLeaf_eq_eraseDups]

/-! ### The loop -/

section Loop

variable {flat : ρ → List ρ} {visits : ρ → Nat} {r : ρ} {alternatives pending : List ρ}

omit [DecidableEq ρ] in
/-- A disjunction may be replaced by its alternatives before checks are flattened. -/
theorem Flattens.flatMap_cons (h : T.Flattens flat) (hcheck : T.check r = .oneOf alternatives) :
    (r :: pending).flatMap flat = (alternatives ++ pending).flatMap flat := by
  rw [List.flatMap_cons, h r, hcheck, List.flatMap_append]

omit [DecidableEq ρ] in
/-- Where a disjunction has been replaced by its alternatives, it is one check less to look at. -/
theorem Counts.sum_cons (h : T.Counts visits) (hcheck : T.check r = .oneOf alternatives) :
    ((r :: pending).map visits).sum = ((alternatives ++ pending).map visits).sum + 1 := by
  rw [List.map_cons, List.sum_cons, h r, hcheck, List.map_append, List.sum_append]
  exact Nat.add_right_comm ..

omit [DecidableEq ρ] in
theorem Counts.pos (h : T.Counts visits) (r : ρ) : 0 < visits r := by
  rw [h r]
  split <;> exact Nat.succ_pos _

/-- The loop ends after as many rounds as there are checks to look at, since one round looks at one
check. What the pending checks are flattened to, together with the leaves found, stays the same. -/
theorem unravel_eq (hflat : T.Flattens flat) (hvisits : T.Counts visits) (rounds : Nat)
    (pending done : List ρ) :
    T.unravel rounds pending done =
      if (pending.map visits).sum ≤ rounds then some ((pending.flatMap flat).foldl addLeaf done)
      else none := by
  induction rounds generalizing pending done with
  | zero =>
    cases pending with
    | nil => rfl
    | cons r pending =>
      have hpos := hvisits.pos r
      rw [unravel, if_neg (by rw [List.map_cons, List.sum_cons]; omega)]
  | succ rounds ih =>
    cases pending with
    | nil => simp [unravel]
    | cons r pending =>
      rw [unravel]
      cases hcheck : T.check r with
      | oneOf alternatives =>
        simp only [ih, hflat.flatMap_cons hcheck, hvisits.sum_cons hcheck, Nat.add_le_add_iff_right]
      | kind | literal | regex | arrayOf | object | anything =>
        have hr : flat r = [r] ∧ visits r = 1 := ⟨(hflat r).trans (by rw [hcheck]),
          (hvisits r).trans (by rw [hcheck])⟩
        simp only [ih, List.map_cons, List.sum_cons, List.flatMap_cons, List.foldl_append, hr]
        exact if_congr (by omega) rfl rfl

end Loop

/-- The loop splices, in as many rounds as there are checks to look at. -/
theorem Ranked.unravel_eq (h : T.Ranked Set.univ rank) (rounds : Nat) (rs : List ρ) :
    T.unravel rounds rs [] = if T.visits rs ≤ rounds then some (T.splice rs) else none := by
  rw [Table.unravel_eq (h.flattens_iff.2 rfl) h.counts_visitsWithin, splice_eq_foldl]
  rfl

end Table

end JsonPattern
