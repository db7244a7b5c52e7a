import JsonPattern.Proofs.Regex.Matching

/-!
# Words of an expression

An expression spells a word between what stands before it and what stands after it. Sequences split
the word, repetitions of a class of characters take the words over the class, and the tests of the
ends of the text hold for the empty word where nothing stands before or after it.
-/

namespace JsonPattern

/-! ### Classes -/

namespace CharClass

variable {c d : Char} {a b : CharClass}

@[simp]
theorem contains_none : none.contains c = false := rfl

@[simp]
theorem contains_blank : blank.contains c = isBlankChar c := rfl

@[simp]
theorem contains_union : (union a b).contains c = (a.contains c || b.contains c) := rfl

@[simp]
theorem contains_compl : (compl a).contains c = !a.contains c := rfl

@[simp]
theorem contains_char : (char c).contains d = decide (d = c) := by
  rw [char, contains, ← Bool.decide_and, decide_eq_decide]
  constructor
  · exact fun ⟨hle, hge⟩ ↦ Char.le_antisymm hge hle
  · rintro rfl
    exact ⟨Char.le_refl d, Char.le_refl d⟩

@[simp]
theorem contains_ofList {cs : List Char} : (ofList cs).contains c = decide (c ∈ cs) := by
  induction cs with
  | nil => rfl
  | cons d cs ih =>
    rw [ofList, List.foldr_cons, ← ofList, contains_union, contains_char, ih, ← Bool.decide_or]
    simp only [List.mem_cons]

@[simp]
theorem contains_upper : (range 'A' 'Z').contains c = c.isUpper := (Bool.decide_and ..).symm

@[simp]
theorem contains_lower : (range 'a' 'z').contains c = c.isLower := rfl

@[simp]
theorem contains_decimal : (range '0' '9').contains c = c.isDigit := rfl

end CharClass

/-! ### Places between two parts -/

theorem getElem?_gapsFrom_append (first : Option Char) (before after : List Char) :
    (gapsFrom first (before ++ after))[before.length]? =
      some ⟨before.getLast?.or first, after.head?⟩ := by
  induction before generalizing first with
  | nil => cases after <;> rfl
  | cons c before ih =>
    rw [List.cons_append, gapsFrom, List.length_cons, List.getElem?_cons_succ, ih,
      List.getLast?_cons]
    cases before.getLast? <;> rfl

theorem getElem?_gaps_append (before after : List Char) :
    (gaps (before ++ after))[before.length]? = some ⟨before.getLast?, after.head?⟩ := by
  rw [gaps, getElem?_gapsFrom_append, Option.or_none]

namespace Regex

variable {a b r : Regex} {before word after : List Char} {c : Char} {cls : CharClass}

/-- An expression matches a word between what stands before and after it. -/
def Spells (r : Regex) (before word after : List Char) : Prop :=
  r.Matches (before ++ word ++ after) before.length (before.length + word.length)

theorem exists_spells_of_matches {text : List Char} {i j : Nat} (h : r.Matches text i j) :
    ∃ before word after, text = before ++ word ++ after ∧ r.Spells before word after := by
  obtain ⟨hij, hj⟩ := h.bounds
  have hbefore : (text.take i).length = i := List.length_take_of_le (hij.trans hj)
  have hword : ((text.drop i).take (j - i)).length = j - i := by
    rw [List.length_take, List.length_drop]
    omega
  have hsplit : text = text.take i ++ (text.drop i).take (j - i) ++ text.drop j := by
    have hdrop : text.drop j = (text.drop i).drop (j - i) := by
      rw [List.drop_drop, Nat.add_sub_of_le hij]
    rw [List.append_assoc, hdrop, List.take_append_drop, List.take_append_drop]
  refine ⟨_, _, _, hsplit, ?_⟩
  rw [Spells, ← hsplit, hbefore, hword, Nat.add_sub_of_le hij]
  exact h

/-- An expression occurs in a text if and only if it spells some word of it. -/
theorem occurs_iff_spells {text : List Char} : r.Occurs text ↔
    ∃ before word after, text = before ++ word ++ after ∧ r.Spells before word after := by
  constructor
  · rintro ⟨i, j, h⟩
    exact exists_spells_of_matches h
  · rintro ⟨before, word, after, rfl, h⟩
    exact ⟨_, _, h⟩

theorem spells_empty_iff : empty.Spells before word after ↔ word = [] := by
  rw [Spells, matches_empty_iff]
  simp

theorem spells_chars_iff :
    (chars cls).Spells before word after ↔ ∃ c, word = [c] ∧ cls.contains c = true := by
  rw [Spells, matches_chars_iff, Nat.add_left_cancel_iff, List.length_eq_one_iff]
  constructor
  · rintro ⟨⟨c, rfl⟩, d, hd, hcls⟩
    obtain rfl : c = d := by simpa using hd
    exact ⟨c, rfl, hcls⟩
  · rintro ⟨c, rfl, hcls⟩
    exact ⟨⟨c, rfl⟩, c, by simp, hcls⟩

theorem spells_char_iff : (char c).Spells before word after ↔ word = [c] := by
  rw [char, spells_chars_iff]
  simp

theorem spells_look_iff {test : Look} : (look test).Spells before word after ↔
    word = [] ∧ test.holds ⟨before.getLast?, after.head?⟩ = true := by
  rw [Spells, matches_look_iff]
  constructor
  · rintro ⟨hword, gap, hgap, htest⟩
    obtain rfl : word = [] := List.length_eq_zero_iff.1 (Nat.add_eq_left.1 hword.symm)
    rw [List.append_nil, getElem?_gaps_append] at hgap
    exact ⟨rfl, Option.some.inj hgap ▸ htest⟩
  · rintro ⟨rfl, htest⟩
    rw [List.append_nil, getElem?_gaps_append]
    exact ⟨rfl, _, rfl, htest⟩

theorem spells_textStart_iff :
    (look .textStart).Spells before word after ↔ word = [] ∧ before = [] := by
  rw [spells_look_iff, Look.holds, Option.isNone_iff_eq_none, List.getLast?_eq_none_iff]

theorem spells_textEnd_iff :
    (look .textEnd).Spells before word after ↔ word = [] ∧ after = [] := by
  rw [spells_look_iff, Look.holds, Option.isNone_iff_eq_none, List.head?_eq_none_iff]

/-- One expression after the other spells a word in two parts. -/
theorem spells_seq_iff : (seq a b).Spells before word after ↔
    ∃ u v, word = u ++ v ∧ a.Spells before u (v ++ after) ∧ b.Spells (before ++ u) v after := by
  have hassoc (u v : List Char) : before ++ u ++ (v ++ after) = before ++ (u ++ v) ++ after := by
    simp only [List.append_assoc]
  have hassoc' (u v : List Char) : before ++ u ++ v ++ after = before ++ (u ++ v) ++ after := by
    simp only [List.append_assoc]
  have hlength (u v : List Char) :
      (before ++ u).length + v.length = before.length + (u ++ v).length := by
    simp only [List.length_append, Nat.add_assoc]
  constructor
  · intro h
    obtain ⟨k, ha, hb⟩ := matches_seq_iff.1 h
    obtain ⟨m, rfl⟩ := Nat.exists_eq_add_of_le ha.bounds.1
    have hm : m ≤ word.length := Nat.le_of_add_le_add_left hb.bounds.1
    have hu : (word.take m).length = m := List.length_take_of_le hm
    refine ⟨word.take m, word.drop m, (List.take_append_drop m word).symm, ?_, ?_⟩
    · rw [Spells, hassoc, List.take_append_drop, hu]
      exact ha
    · rw [Spells, hassoc', hlength, List.take_append_drop, List.length_append, hu]
      exact hb
  · rintro ⟨u, v, rfl, ha, hb⟩
    rw [Spells, hassoc] at ha
    rw [Spells, hassoc', hlength, List.length_append] at hb
    exact matches_seq_iff.2 ⟨_, ha, hb⟩

theorem spells_star_iff : (star a).Spells before word after ↔
    word = [] ∨ (seq a (star a)).Spells before word after := by
  rw [Spells, Spells, matches_star_iff, matches_seq_iff]
  simp

/-- Any number of characters of a class spell the words over the class. -/
theorem spells_star_chars_iff : (star (chars cls)).Spells before word after ↔
    ∀ c ∈ word, cls.contains c = true := by
  induction word generalizing before with
  | nil => exact iff_of_true (spells_star_iff.2 (.inl rfl)) nofun
  | cons c word ih =>
    rw [spells_star_iff, spells_seq_iff, List.forall_mem_cons]
    constructor
    · rintro (hnil | ⟨u, v, he, hu, hv⟩)
      · cases hnil
      · obtain ⟨d, rfl, hd⟩ := spells_chars_iff.1 hu
        obtain ⟨rfl, rfl⟩ := List.cons.inj he
        exact ⟨hd, ih.1 hv⟩
    · rintro ⟨hc, hall⟩
      exact .inr ⟨[c], word, rfl, spells_chars_iff.2 ⟨c, rfl, hc⟩, ih.2 hall⟩

/-- At least one character of a class, as a word over the class that is not empty. -/
theorem spells_plus_chars_iff : (plus (chars cls)).Spells before word after ↔
    word ≠ [] ∧ ∀ c ∈ word, cls.contains c = true := by
  rw [plus, spells_seq_iff]
  constructor
  · rintro ⟨u, v, rfl, hu, hv⟩
    obtain ⟨c, rfl, hc⟩ := spells_chars_iff.1 hu
    exact ⟨List.cons_ne_nil c v, List.forall_mem_cons.2 ⟨hc, spells_star_chars_iff.1 hv⟩⟩
  · rintro ⟨hne, hall⟩
    obtain ⟨c, v, rfl⟩ := List.exists_cons_of_ne_nil hne
    obtain ⟨hc, hv⟩ := List.forall_mem_cons.1 hall
    exact ⟨[c], v, rfl, spells_chars_iff.2 ⟨c, rfl, hc⟩, spells_star_chars_iff.2 hv⟩

end Regex

end JsonPattern
