import JsonPattern.Regex.Matching
import Mathlib.Data.Bool.Basic
import Mathlib.Order.Nat

/-!
# Matching is decided

An expression carries a set of places to the places where the matches end that begin in the set
(`Regex.carries`), by induction on the expression. For a repetition without a bound this takes an
argument why the rounds suffice: a round that reaches nothing new is the last one, and every other
round leaves fewer places that are not in the set. Hence `Regex.isMatch` decides whether there is a
match.

## Main definitions

* `Marked` : a place is in a set of places.
* `Regex.Carries` : an expression carries a set of places to the places where its matches end.

## Main results

* `Regex.matches_seq_iff`, `Regex.matches_star_iff` : matches by the constructors, with their
  fellows.
* `Regex.carries` : every expression carries sets of places.
* `Regex.isMatch_iff` : an expression is found in a text if and only if it occurs there.
-/

namespace JsonPattern

variable {text : List Char} {i j : Nat}

/-! ### Gaps -/

theorem length_gapsFrom (before : Option Char) :
    (gapsFrom before text).length = text.length + 1 := by
  induction text generalizing before with
  | nil => rfl
  | cons c text ih => rw [gapsFrom, List.length_cons, ih, List.length_cons]

@[simp]
theorem length_gaps : (gaps text).length = text.length + 1 := length_gapsFrom none

theorem after_of_getElem?_gapsFrom {before : Option Char} {gap : Gap}
    (h : (gapsFrom before text)[i]? = some gap) : gap.after = text[i]? := by
  induction text generalizing before i with
  | nil =>
    cases i with
    | zero => cases h; rfl
    | succ i => cases h
  | cons c text ih =>
    cases i with
    | zero => cases h; rfl
    | succ i => exact ih h

theorem after_of_getElem?_gaps {gap : Gap} (h : (gaps text)[i]? = some gap) :
    gap.after = text[i]? :=
  after_of_getElem?_gapsFrom h

/-! ### Sets of places -/

/-- A place is in a set of places. -/
def Marked (places : List Bool) (i : Nat) : Prop := places[i]? = some true

variable {places others : List Bool}

theorem Marked.lt_length (h : Marked places i) : i < places.length :=
  (List.getElem?_eq_some_iff.1 h).1

theorem marked_zipWith_or (hlength : places.length = others.length) :
    Marked (places.zipWith (· || ·) others) i ↔ Marked places i ∨ Marked others i := by
  simp only [Marked, List.getElem?_zipWith]
  rcases Nat.lt_or_ge i places.length with hi | hi
  · rw [List.getElem?_eq_getElem hi, List.getElem?_eq_getElem (hlength ▸ hi)]
    simp
  · rw [List.getElem?_eq_none hi, List.getElem?_eq_none (hlength ▸ hi)]
    simp

theorem marked_zipWith_and {test : Gap → Bool} {gaps : List Gap} :
    Marked (places.zipWith (fun place gap ↦ place && test gap) gaps) i ↔
      Marked places i ∧ ∃ gap, gaps[i]? = some gap ∧ test gap = true := by
  simp only [Marked, List.getElem?_zipWith]
  cases places[i]? <;> cases gaps[i]? <;> simp

theorem marked_dropLast : Marked places.dropLast i ↔ i + 1 < places.length ∧ Marked places i := by
  rw [Marked, Marked, List.getElem?_dropLast]
  split <;> simp <;> omega

theorem marked_of_count_eq_zero (hall : places.count false = 0) (hi : i < places.length) :
    Marked places i := by
  have hne : places[i] ≠ false := fun he ↦ List.count_eq_zero.1 hall (he ▸ List.getElem_mem hi)
  rw [Marked, List.getElem?_eq_getElem hi, Bool.eq_true_of_not_eq_false hne]

/-- What is put together with more places has fewer left out, or is the same. -/
theorem zipWith_or_eq_or_count_lt (hlength : places.length = others.length) :
    places.zipWith (· || ·) others = places ∨
      (places.zipWith (· || ·) others).count false < places.count false := by
  induction places generalizing others with
  | nil => exact .inl rfl
  | cons place places ih =>
    cases others with
    | nil => cases hlength
    | cons other others =>
      rcases ih (Nat.succ.inj hlength) with hrest | hrest
      · cases place <;> cases other <;> simp [hrest]
      · cases place <;> cases other <;> simp <;> omega

namespace Regex

variable {a b : Regex} {n : Nat}

/-! ### Matches -/

theorem Matches.bounds {r : Regex} (h : r.Matches text i j) : i ≤ j ∧ j ≤ text.length := by
  induction h with
  | empty hi | starNil hi | timesNil hi | upToNil hi => exact ⟨le_rfl, hi⟩
  | chars hc => exact ⟨Nat.le_succ _, (List.getElem?_eq_some_iff.1 hc).1⟩
  | look hgap =>
    have hlt := (List.getElem?_eq_some_iff.1 hgap).1
    rw [length_gaps] at hlt
    exact ⟨le_rfl, Nat.le_of_lt_succ hlt⟩
  | seq _ _ ha hb | starCons _ _ ha hb | timesCons _ _ ha hb | upToCons _ _ ha hb =>
    exact ⟨ha.1.trans hb.1, hb.2⟩
  | altLeft _ ha | altRight _ ha => exact ha

theorem matches_empty_iff : Matches .empty text i j ↔ i = j ∧ i ≤ text.length := by
  constructor
  · rintro (h | _)
    exact ⟨rfl, h⟩
  · rintro ⟨rfl, h⟩
    exact .empty h

theorem matches_chars_iff {cls : CharClass} : Matches (.chars cls) text i j ↔
    j = i + 1 ∧ ∃ c, text[i]? = some c ∧ cls.contains c = true := by
  constructor
  · intro h
    cases h with
    | chars hc hcls => exact ⟨rfl, _, hc, hcls⟩
  · rintro ⟨rfl, c, hc, hcls⟩
    exact .chars hc hcls

theorem matches_look_iff {test : Look} : Matches (.look test) text i j ↔
    i = j ∧ ∃ gap, (gaps text)[i]? = some gap ∧ test.holds gap = true := by
  constructor
  · intro h
    cases h with
    | look hgap htest => exact ⟨rfl, _, hgap, htest⟩
  · rintro ⟨rfl, gap, hgap, htest⟩
    exact .look hgap htest

theorem matches_seq_iff :
    Matches (.seq a b) text i j ↔ ∃ k, a.Matches text i k ∧ b.Matches text k j := by
  constructor
  · intro h
    cases h with
    | seq ha hb => exact ⟨_, ha, hb⟩
  · rintro ⟨k, ha, hb⟩
    exact .seq ha hb

theorem matches_alt_iff :
    Matches (.alt a b) text i j ↔ a.Matches text i j ∨ b.Matches text i j := by
  constructor
  · intro h
    cases h with
    | altLeft ha => exact .inl ha
    | altRight hb => exact .inr hb
  · rintro (ha | hb)
    · exact .altLeft ha
    · exact .altRight hb

theorem matches_star_iff : Matches (.star a) text i j ↔
    (i = j ∧ i ≤ text.length) ∨ ∃ k, a.Matches text i k ∧ Matches (.star a) text k j := by
  constructor
  · intro h
    cases h with
    | starNil hi => exact .inl ⟨rfl, hi⟩
    | starCons ha hrest => exact .inr ⟨_, ha, hrest⟩
  · rintro (⟨rfl, hi⟩ | ⟨k, ha, hrest⟩)
    · exact .starNil hi
    · exact .starCons ha hrest

theorem matches_times_zero_iff :
    Matches (.times a 0) text i j ↔ i = j ∧ i ≤ text.length := by
  constructor
  · intro h
    cases h with
    | timesNil hi => exact ⟨rfl, hi⟩
  · rintro ⟨rfl, hi⟩
    exact .timesNil hi

theorem matches_times_succ_iff : Matches (.times a (n + 1)) text i j ↔
    ∃ k, a.Matches text i k ∧ Matches (.times a n) text k j := by
  constructor
  · intro h
    cases h with
    | timesCons ha hrest => exact ⟨_, ha, hrest⟩
  · rintro ⟨k, ha, hrest⟩
    exact .timesCons ha hrest

theorem matches_upTo_zero_iff :
    Matches (.upTo a 0) text i j ↔ i = j ∧ i ≤ text.length := by
  constructor
  · intro h
    cases h with
    | upToNil hi => exact ⟨rfl, hi⟩
  · rintro ⟨rfl, hi⟩
    exact .upToNil hi

theorem Matches.upTo_succ (h : Matches (.upTo a n) text i j) :
    Matches (.upTo a (n + 1)) text i j := by
  induction n generalizing i with
  | zero =>
    cases h with
    | upToNil hi => exact .upToNil hi
  | succ n ih =>
    cases h with
    | upToNil hi => exact .upToNil hi
    | upToCons ha hrest => exact .upToCons ha (ih hrest)

/-- One round more, or the place stays. -/
theorem matches_upTo_succ_iff : Matches (.upTo a (n + 1)) text i j ↔
    ∃ k, ((i = k ∧ i ≤ text.length) ∨ a.Matches text i k) ∧ Matches (.upTo a n) text k j := by
  constructor
  · intro h
    cases h with
    | upToNil hi => exact ⟨i, .inl ⟨rfl, hi⟩, .upToNil hi⟩
    | upToCons ha hrest => exact ⟨_, .inr ha, hrest⟩
  · rintro ⟨k, ⟨rfl, -⟩ | ha, hrest⟩
    · exact hrest.upTo_succ
    · exact .upToCons ha hrest

theorem Matches.star_of_upTo (h : Matches (.upTo a n) text i j) : Matches (.star a) text i j := by
  induction n generalizing i with
  | zero =>
    cases h with
    | upToNil hi => exact .starNil hi
  | succ n ih =>
    cases h with
    | upToNil hi => exact .starNil hi
    | upToCons ha hrest => exact .starCons ha (ih hrest)

/-- A set of places that an expression does not lead out of is not left by its repetition. -/
theorem Matches.marked_of_star (h : Matches (.star a) text i j)
    (hclosed : ∀ i j, Marked places i → a.Matches text i j → Marked places j)
    (hi : Marked places i) : Marked places j := by
  generalize hr : Regex.star a = r at h
  induction h with
  | starNil => exact hi
  | starCons ha hrest _ ih =>
    cases hr
    exact ih hclosed (hclosed _ _ hi ha) rfl
  | empty | chars | look | seq | altLeft | altRight | timesNil | timesCons | upToNil | upToCons =>
    cases hr

/-! ### Rounds -/

theorem iterate_succ (step : List Bool → List Bool) (n : Nat) (places : List Bool) :
    iterate step (n + 1) places = iterate step n (step places) := by
  rw [iterate]
  split
  · next hstays =>
    rw [hstays]
    cases n with
    | zero => rfl
    | succ n => rw [iterate, if_pos hstays]
  · rfl

theorem closure_succ (step : List Bool → List Bool) (n : Nat) (places : List Bool) :
    closure step (n + 1) places = closure step n (places.zipWith (· || ·) (step places)) := by
  rw [closure]
  split
  · next hstays =>
    rw [hstays]
    cases n with
    | zero => rfl
    | succ n => rw [closure, if_pos hstays]
  · rfl

/-! ### Reached places -/

/-- An expression carries a set of places to those where its matches end that begin in the set. -/
structure Carries (r : Regex) (text : List Char) : Prop where
  /-- The places stay those of the text. -/
  length_eq : ∀ places : List Bool, places.length = text.length + 1 →
    (r.reach (gaps text) places).length = text.length + 1
  /-- A place is reached if and only if a match ends there. -/
  marked_iff : ∀ places : List Bool, places.length = text.length + 1 → ∀ j,
    Marked (r.reach (gaps text) places) j ↔ ∃ i, Marked places i ∧ r.Matches text i j

namespace Carries

theorem empty : Carries .empty text where
  length_eq _ hplaces := hplaces
  marked_iff places hplaces j := by
    simp only [reach, matches_empty_iff]
    constructor
    · exact fun hj ↦ ⟨j, hj, rfl, Nat.le_of_lt_succ (hj.lt_length.trans_eq hplaces)⟩
    · rintro ⟨i, hi, rfl, -⟩
      exact hi

theorem chars (cls : CharClass) : Carries (.chars cls) text where
  length_eq places hplaces := by simp [reach, hplaces]
  marked_iff places hplaces j := by
    simp only [reach, matches_chars_iff]
    cases j with
    | zero => simp [Marked]
    | succ j =>
      have hlength : (places.zipWith (fun place gap ↦ place && gap.after.any cls.contains)
          (gaps text)).length = text.length + 1 := by simp [hplaces]
      rw [Marked, List.getElem?_cons_succ, ← Marked, marked_dropLast, marked_zipWith_and, hlength]
      constructor
      · rintro ⟨-, hj, gap, hgap, hany⟩
        rw [after_of_getElem?_gaps hgap, Option.any_eq_true] at hany
        exact ⟨j, hj, rfl, hany⟩
      · rintro ⟨i, hi, he, c, hc, hcls⟩
        obtain rfl := Nat.succ.inj he
        have hlt := (List.getElem?_eq_some_iff.1 hc).1
        have hgap : j < (gaps text).length := length_gaps ▸ Nat.lt_succ_of_lt hlt
        refine ⟨Nat.succ_lt_succ hlt, hi, (gaps text)[j], List.getElem?_eq_getElem hgap, ?_⟩
        rw [after_of_getElem?_gaps (List.getElem?_eq_getElem hgap), hc]
        exact hcls

theorem look (test : Look) : Carries (.look test) text where
  length_eq places hplaces := by simp [reach, hplaces]
  marked_iff places hplaces j := by
    simp only [reach, matches_look_iff]
    rw [marked_zipWith_and]
    constructor
    · exact fun ⟨hj, hgap⟩ ↦ ⟨j, hj, rfl, hgap⟩
    · rintro ⟨i, hi, rfl, hgap⟩
      exact ⟨hi, hgap⟩

theorem seq (ha : a.Carries text) (hb : b.Carries text) : Carries (.seq a b) text where
  length_eq places hplaces := hb.length_eq _ (ha.length_eq places hplaces)
  marked_iff places hplaces j := by
    simp only [reach, matches_seq_iff, hb.marked_iff _ (ha.length_eq places hplaces),
      ha.marked_iff places hplaces]
    constructor
    · rintro ⟨k, ⟨i, hi, ha⟩, hb⟩
      exact ⟨i, hi, k, ha, hb⟩
    · rintro ⟨i, hi, k, ha, hb⟩
      exact ⟨k, ⟨i, hi, ha⟩, hb⟩

theorem alt (ha : a.Carries text) (hb : b.Carries text) : Carries (.alt a b) text where
  length_eq places hplaces := by
    rw [reach, List.length_zipWith, ha.length_eq places hplaces, hb.length_eq places hplaces,
      Nat.min_self]
  marked_iff places hplaces j := by
    have hlength := (ha.length_eq places hplaces).trans (hb.length_eq places hplaces).symm
    simp only [reach, marked_zipWith_or hlength, ha.marked_iff places hplaces,
      hb.marked_iff places hplaces, matches_alt_iff, and_or_left, exists_or]

theorem congr {r r' : Regex} (h : r.Carries text)
    (hreach : ∀ places, r'.reach (gaps text) places = r.reach (gaps text) places)
    (hmatches : ∀ i j, r'.Matches text i j ↔ r.Matches text i j) : r'.Carries text where
  length_eq places hplaces := hreach places ▸ h.length_eq places hplaces
  marked_iff places hplaces j := by simp only [hreach, hmatches, h.marked_iff places hplaces]

/-- Round by round, as one expression after the other. -/
theorem times (ha : a.Carries text) (n : Nat) : Carries (.times a n) text := by
  induction n with
  | zero =>
    exact empty.congr (fun _ ↦ rfl) fun i j ↦ matches_times_zero_iff.trans matches_empty_iff.symm
  | succ n ih =>
    refine (ha.seq ih).congr (fun places ↦ ?_) fun i j ↦ ?_
    · simp only [reach, iterate_succ]
    · rw [matches_times_succ_iff, matches_seq_iff]

theorem upTo (ha : a.Carries text) (n : Nat) : Carries (.upTo a n) text := by
  induction n with
  | zero =>
    exact empty.congr (fun _ ↦ rfl) fun i j ↦ matches_upTo_zero_iff.trans matches_empty_iff.symm
  | succ n ih =>
    refine ((empty.alt ha).seq ih).congr (fun places ↦ ?_) fun i j ↦ ?_
    · simp only [reach, closure_succ]
    · rw [matches_upTo_succ_iff, matches_seq_iff]
      simp only [matches_alt_iff, matches_empty_iff]

/-- As many rounds as places are left out are enough for a set that is not led out of. -/
theorem closed_closure (ha : a.Carries text) (hplaces : places.length = text.length + 1)
    (hrounds : places.count false ≤ n)
    (hi : Marked (closure (a.reach (gaps text)) n places) i) (hmatch : a.Matches text i j) :
    Marked (closure (a.reach (gaps text)) n places) j := by
  induction n generalizing places with
  | zero =>
    refine marked_of_count_eq_zero (Nat.le_zero.1 hrounds) ?_
    exact (Nat.lt_succ_of_le hmatch.bounds.2).trans_eq hplaces.symm
  | succ n ih =>
    have hlength := hplaces.trans (ha.length_eq places hplaces).symm
    rw [closure] at hi ⊢
    split at hi
    · next hstays =>
      rw [if_pos hstays, ← hstays, marked_zipWith_or hlength]
      exact .inr ((ha.marked_iff places hplaces j).2 ⟨i, hi, hmatch⟩)
    · next hgrows =>
      rw [if_neg hgrows]
      have hfewer := (zipWith_or_eq_or_count_lt hlength).resolve_left hgrows
      refine ih ?_ (Nat.le_of_lt_succ (hfewer.trans_le hrounds)) hi
      rw [List.length_zipWith, ← hlength, Nat.min_self, hplaces]

theorem star (ha : a.Carries text) : Carries (.star a) text where
  length_eq := (ha.upTo (gaps text).length).length_eq
  marked_iff places hplaces j := by
    have hupTo := (ha.upTo (gaps text).length).marked_iff places hplaces
    constructor
    · intro hj
      obtain ⟨i, hi, hmatch⟩ := (hupTo j).1 hj
      exact ⟨i, hi, hmatch.star_of_upTo⟩
    · rintro ⟨i, hi, hmatch⟩
      have hle : i ≤ text.length := hmatch.bounds.1.trans hmatch.bounds.2
      have hrounds : places.count false ≤ (gaps text).length :=
        List.count_le_length.trans (by rw [hplaces, length_gaps])
      exact hmatch.marked_of_star (fun i j ↦ ha.closed_closure hplaces hrounds)
        ((hupTo i).2 ⟨i, hi, .upToNil hle⟩)

end Carries

theorem carries (r : Regex) (text : List Char) : r.Carries text := by
  induction r with
  | empty => exact .empty
  | chars cls => exact .chars cls
  | look test => exact .look test
  | seq a b iha ihb => exact .seq iha ihb
  | alt a b iha ihb => exact .alt iha ihb
  | star a ih => exact .star ih
  | times a n ih => exact .times ih n
  | upTo a n ih => exact .upTo ih n

/-- An expression is found in a text if and only if it occurs there. -/
theorem isMatch_iff {r : Regex} {s : String} : r.isMatch s = true ↔ r.Occurs s.toList := by
  have hall {i : Nat} : Marked ((gaps s.toList).map fun _ ↦ true) i ↔
      i < (gaps s.toList).length := by
    rw [Marked, List.getElem?_map]
    rcases Nat.lt_or_ge i (gaps s.toList).length with hi | hi
    · exact iff_of_true (by rw [List.getElem?_eq_getElem hi]; rfl) hi
    · exact iff_of_false (by rw [List.getElem?_eq_none hi]; exact nofun) (Nat.not_lt.2 hi)
  have hreach := (carries r s.toList).marked_iff ((gaps s.toList).map fun _ ↦ true) (by simp)
  simp only [hall] at hreach
  rw [isMatch, List.any_eq_true]
  constructor
  · rintro ⟨place, hplace, htrue⟩
    obtain ⟨j, hj⟩ := List.mem_iff_getElem?.1 hplace
    obtain ⟨i, -, hmatch⟩ := (hreach j).1 (hj.trans (congrArg some htrue))
    exact ⟨i, j, hmatch⟩
  · rintro ⟨i, j, hmatch⟩
    have hi : i < (gaps s.toList).length :=
      length_gaps ▸ Nat.lt_succ_of_le (hmatch.bounds.1.trans hmatch.bounds.2)
    exact ⟨true, List.mem_of_getElem? ((hreach j).2 ⟨i, hi, hmatch⟩), rfl⟩

end Regex

end JsonPattern
