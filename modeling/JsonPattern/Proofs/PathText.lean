import JsonPattern.Digits
import JsonPattern.Path

/-!
# Reading the text of a path

The text of a path tells the path. A name may hold quotes, brackets and backslashes, but as a quote
and a backslash are escaped in it, the first quote that is not escaped ends it; the digits of an
index end at the bracket. So the steps of a text can be read one after the other:
`Path.ofText?` reads exactly the texts of paths, each as the path of which it is the text.
-/

namespace JsonPattern

/-! ### Numbers -/

/-- The digits of a number are read as that number. -/
theorem decimalValue_toDigits (n : Nat) : decimalValue (Nat.toDigits 10 n) = n := by
  have hfold (digits : List Char) : decimalValue digits = Nat.ofDigitChars 10 digits 0 := by
    simp only [decimalValue, Nat.ofDigitChars, Nat.mul_comm]
  rw [hfold, Nat.ofDigitChars_ten_toDigits]

/-! ### Steps -/

namespace Step

/-- Reads the characters of a name up to the quote and the bracket that close it: the characters,
and what follows the bracket. -/
def readName? : List Char → Option (List Char × List Char)
  | [] => none
  | c :: cs =>
    if c = '\'' then
      match cs with
      | ']' :: rest => some ([], rest)
      | _ => none
    else if c = '\\' then
      match cs with
      | d :: cs =>
        if d = '\'' ∨ d = '\\' then (readName? cs).map fun (label, rest) ↦ (d :: label, rest)
        else none
      | [] => none
    else (readName? cs).map fun (label, rest) ↦ (c :: label, rest)

/-- Reads the digits of an index up to the bracket that closes it: the index, and what follows the
bracket. Digits that no index is written with are refused. -/
def readIndex? (cs : List Char) : Option (Nat × List Char) :=
  let i := decimalValue (cs.takeWhile Char.isDigit)
  match cs.dropWhile Char.isDigit with
  | ']' :: rest => if Nat.toDigits 10 i = cs.takeWhile Char.isDigit then some (i, rest) else none
  | _ => none

/-- Reads a step: the step, and what follows it. -/
def read? : List Char → Option (Step × List Char)
  | '[' :: '\'' :: cs => (readName? cs).map fun (label, rest) ↦ (.name (String.ofList label), rest)
  | '[' :: cs => (readIndex? cs).map fun (i, rest) ↦ (.index i, rest)
  | _ => none

theorem readName?_escape (c : Char) (cs : List Char) :
    readName? (escape c ++ cs) = (readName? cs).map fun (label, rest) ↦ (c :: label, rest) := by
  rw [escape]
  split
  · next hc => simp [readName?, hc]
  · next hc =>
    obtain ⟨hquote, hbackslash⟩ := not_or.1 hc
    rw [List.singleton_append, readName?.eq_def]
    simp only [if_neg hquote, if_neg hbackslash]

/-- What is read as a name is the name, escaped and closed. -/
theorem readName?_eq_some_iff {cs label rest : List Char} :
    readName? cs = some (label, rest) ↔ cs = label.flatMap escape ++ '\'' :: ']' :: rest := by
  constructor
  · intro h
    fun_induction readName? cs generalizing label with
    | case1 | case3 | case5 | case6 => cases h
    | case2 => cases h; rfl
    | case4 d cs hd _ ih =>
      obtain ⟨⟨label', rest'⟩, hread, he⟩ := Option.map_eq_some_iff.1 h
      cases he
      simp [escape, hd, ih hread]
    | case7 c cs hquote hbackslash ih =>
      obtain ⟨⟨label', rest'⟩, hread, he⟩ := Option.map_eq_some_iff.1 h
      cases he
      simp [escape, hquote, hbackslash, ih hread]
  · rintro rfl
    induction label with
    | nil => rfl
    | cons c label ih => rw [List.flatMap_cons, List.append_assoc, readName?_escape, ih]; rfl

theorem isDigit_toDigits (i : Nat) : ∀ c ∈ Nat.toDigits 10 i, c.isDigit = true :=
  fun _ hc ↦ Nat.isDigit_of_mem_toDigits (by decide) (by decide) hc

/-- What is read as an index is its digits, closed. -/
theorem readIndex?_eq_some_iff {cs rest : List Char} {i : Nat} :
    readIndex? cs = some (i, rest) ↔ cs = Nat.toDigits 10 i ++ ']' :: rest := by
  constructor
  · intro h
    rw [readIndex?] at h
    split at h
    · next rest' hrest =>
      split at h
      · next hdigits =>
        cases h
        rw [hdigits, ← hrest, List.takeWhile_append_dropWhile]
      · cases h
    · cases h
  · rintro rfl
    have htake : (Nat.toDigits 10 i ++ ']' :: rest).takeWhile Char.isDigit = Nat.toDigits 10 i := by
      rw [List.takeWhile_append_of_pos (isDigit_toDigits i)]
      simp
    have hdrop : (Nat.toDigits 10 i ++ ']' :: rest).dropWhile Char.isDigit = ']' :: rest := by
      rw [List.dropWhile_append_of_pos (isDigit_toDigits i)]
      rfl
    rw [readIndex?, htake, hdrop, decimalValue_toDigits]
    exact if_pos rfl

/-- What is read as a step is the characters of the step. -/
theorem read?_eq_some_iff {cs rest : List Char} {step : Step} :
    read? cs = some (step, rest) ↔ cs = step.chars ++ rest := by
  constructor
  · intro h
    rw [read?.eq_def] at h
    split at h
    · obtain ⟨⟨label, rest'⟩, hread, he⟩ := Option.map_eq_some_iff.1 h
      cases he
      simp [chars, readName?_eq_some_iff.1 hread]
    · obtain ⟨⟨i, rest'⟩, hread, he⟩ := Option.map_eq_some_iff.1 h
      cases he
      simp [chars, readIndex?_eq_some_iff.1 hread]
    · cases h
  · rintro rfl
    cases step with
    | name label =>
      have hread : readName? (label.toList.flatMap escape ++ '\'' :: ']' :: rest) =
          some (label.toList, rest) := readName?_eq_some_iff.2 rfl
      simp [chars, read?, hread]
    | index i =>
      have hread : readIndex? (Nat.toDigits 10 i ++ ']' :: rest) = some (i, rest) :=
        readIndex?_eq_some_iff.2 rfl
      -- The first digit is no quote, so what follows the bracket is no name.
      obtain ⟨d, ds, hdigits⟩ := List.exists_cons_of_ne_nil (Nat.toDigits_ne_nil (n := i) (b := 10))
      have hquote : d ≠ '\'' := by
        rintro rfl
        exact absurd (isDigit_toDigits i '\'' (hdigits ▸ List.mem_cons_self)) (by decide)
      rw [hdigits] at hread
      simp only [chars, hdigits, List.cons_append, List.append_assoc, List.nil_append] at hread ⊢
      rw [read?.eq_def]
      simp [hquote, hread]

/-- A step has characters. -/
theorem length_lt_of_read? {cs rest : List Char} {step : Step} (h : read? cs = some (step, rest)) :
    rest.length < cs.length := by
  rw [read?_eq_some_iff.1 h]
  cases step <;> simp [chars] <;> omega

/-- Reads steps until nothing is left. -/
def readAll? : List Char → Option (List Step)
  | [] => some []
  | c :: cs =>
    match _h : read? (c :: cs) with
    | some (step, rest) => (readAll? rest).map (step :: ·)
    | none => none
termination_by cs => cs.length
decreasing_by exact length_lt_of_read? _h

/-- What is read as steps is the characters of the steps. -/
theorem readAll?_eq_some_iff {cs : List Char} {steps : List Step} :
    readAll? cs = some steps ↔ cs = steps.flatMap chars := by
  constructor
  · intro h
    fun_induction readAll? cs generalizing steps with
    | case1 => cases h; rfl
    | case2 c cs step rest hread ih =>
      obtain ⟨steps', hrest, rfl⟩ := Option.map_eq_some_iff.1 h
      rw [List.flatMap_cons, ← ih hrest, read?_eq_some_iff.1 hread]
    | case3 => cases h
  · rintro rfl
    induction steps with
    | nil => rw [List.flatMap_nil, readAll?]
    | cons step steps ih =>
      have hread : read? ((step :: steps).flatMap chars) = some (step, steps.flatMap chars) :=
        read?_eq_some_iff.2 List.flatMap_cons
      cases hcs : (step :: steps).flatMap chars with
      | nil => rw [hcs] at hread; cases hread
      | cons c cs =>
        rw [hcs] at hread
        rw [readAll?]
        split
        · next hstep =>
          rw [hread] at hstep
          cases hstep
          rw [ih, Option.map_some]
        · next hnone => rw [hread] at hnone; cases hnone

end Step

/-! ### Paths -/

namespace Path

/-- Reads a path from its text. -/
def ofText? (text : String) : Option Path :=
  match text.toList with
  | '$' :: cs => (Step.readAll? cs).map Path.mk
  | _ => none

/-- The text of a path tells the path: paths with the same text are the same, and a reader finds the
path of every text. It reads nothing else: a text that it reads is that of the path it yields. -/
theorem text_readable (path other : Path) (text : String) :
    (path.text = other.text ↔ path = other) ∧ ofText? path.text = some path ∧
      (ofText? text = some path ↔ path.text = text) := by
  have hread (path : Path) (text : String) : ofText? text = some path ↔ path.text = text := by
    rw [ofText?.eq_def, Path.text, ← String.toList_inj, String.toList_ofList]
    split
    · next cs htext =>
      rw [htext, Option.map_eq_some_iff, List.cons_inj_right]
      constructor
      · rintro ⟨steps, hread, rfl⟩
        exact (Step.readAll?_eq_some_iff.1 hread).symm
      · rintro rfl
        exact ⟨path.steps, Step.readAll?_eq_some_iff.2 rfl, rfl⟩
    · next hother => exact iff_of_false nofun fun htext ↦ hother _ htext.symm
  refine ⟨⟨fun h ↦ ?_, congrArg Path.text⟩, (hread path path.text).2 rfl, hread path text⟩
  have hother : ofText? path.text = some other := (hread other path.text).2 h.symm
  exact Option.some.inj (((hread path path.text).2 rfl).symm.trans hother)

end Path

end JsonPattern
