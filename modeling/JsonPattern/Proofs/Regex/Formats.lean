import JsonPattern.Proofs.Regex.Words
import JsonPattern.Regex.Search
import Mathlib.Data.List.Basic

/-!
# Texts of the formats

The texts in which the expressions of the formats occur, without expressions: mail addresses
(`IsMailAddress`) and locations (`IsLocation`). The sources of the formats are read into trees. Both
expressions are bound to the ends of the text, so they occur in it if and only if they spell it as a
whole.

What an engine makes of the formats is not known from the engine alone. `Engine.Searches` says that
it looks for the expressions of their sources anywhere in a text.

## Main definitions

* `IsMailAddress`, `IsLocation` : the texts of the formats.
* `Engine.Searches` : an engine finds the expressions of the formats where they occur.

## Main results

* `IsMailAddress.count_at`, `IsMailAddress.last_point` : the at sign and the last point of a mail
  address.
* `Regex.exists_tree_email`, `Regex.exists_tree_url` : what is read from the sources occurs in the
  texts of the formats.
* `Engine.Searches.isMatch_email_iff`, `Engine.Searches.isMatch_url_iff` : an engine that searches
  accepts the texts of the formats.
* `Regex.searches_engine` : the engine of the library searches.
-/

namespace JsonPattern

/-- A part of a mail address is not empty, and it has no blank and none of the given characters. -/
def IsMailPart (others word : List Char) : Prop :=
  word ≠ [] ∧ ∀ c ∈ word, isBlankChar c = false ∧ c ∉ others

instance (others word : List Char) : Decidable (IsMailPart others word) :=
  decidable_of_iff (word ≠ [] ∧ word.all fun c ↦ decide (isBlankChar c = false ∧ c ∉ others))
    (by simp [IsMailPart])

/-- A local part, an at sign, and a domain with a point that is neither at its start nor at its
end. -/
def IsMailAddress (text : List Char) : Prop :=
  ∃ name host top, text = name ++ '@' :: (host ++ '.' :: top) ∧ IsMailPart ['@'] name ∧
    IsMailPart ['@'] host ∧ IsMailPart ['@', '.'] top

theorem IsMailPart.notMem {others word : List Char} {c : Char} (h : IsMailPart others word)
    (hc : c ∈ others) : c ∉ word :=
  fun hmem ↦ (h.2 c hmem).2 hc

namespace IsMailAddress

variable {text name domain : List Char}

theorem count_at (h : IsMailAddress text) : text.count '@' = 1 := by
  obtain ⟨name, host, top, rfl, hname, hhost, htop⟩ := h
  have hname' : '@' ∉ name := hname.notMem (by decide)
  have hhost' : '@' ∉ host := hhost.notMem (by decide)
  have htop' : '@' ∉ top := htop.notMem (by decide)
  simp [List.count_eq_zero_of_not_mem, hname', hhost', htop']

/-- The domain has a point, and its last point is neither its first nor its last character. -/
theorem last_point (h : IsMailAddress text) (htext : text = name ++ '@' :: domain) :
    '.' ∈ domain ∧ ∀ u v, domain = u ++ '.' :: v → '.' ∉ v → u ≠ [] ∧ v ≠ [] := by
  obtain ⟨name', host, top, hsplit, hname, hhost, htop⟩ := h
  have hdomain : '@' ∉ host ++ '.' :: top := by
    have hhost' : '@' ∉ host := hhost.notMem (by decide)
    have htop' : '@' ∉ top := htop.notMem (by decide)
    simp [hhost', htop']
  obtain ⟨-, -, rfl⟩ := (List.append_cons_inj_of_notMem (hname.notMem (by decide)) hdomain).1
    (hsplit.symm.trans htext)
  -- A point that stands before another one has a point after it.
  have hlast {between v v' : List Char} (hrest : '.' :: v = between ++ '.' :: v')
      (hv : '.' ∉ v) : between = [] ∧ v = v' := by
    cases between with
    | nil => exact ⟨rfl, (List.cons.inj hrest).2⟩
    | cons c between =>
      refine absurd ?_ hv
      rw [(List.cons.inj hrest).2]
      exact List.mem_append_right _ List.mem_cons_self
  refine ⟨by simp, fun u v he hv ↦ ?_⟩
  rcases List.append_eq_append_iff.1 he with ⟨between, rfl, hrest⟩ | ⟨between, rfl, hrest⟩
  · obtain ⟨rfl, rfl⟩ := hlast hrest (htop.notMem (by decide))
    exact ⟨by simpa using hhost.1, htop.1⟩
  · obtain ⟨rfl, rfl⟩ := hlast hrest hv
    exact ⟨by simpa using hhost.1, htop.1⟩

end IsMailAddress

/-- A scheme begins with a letter, which letters, digits and a few signs may follow, all of them
ASCII characters. -/
def IsScheme (word : List Char) : Prop :=
  ∃ c more, word = c :: more ∧ c.isAlpha = true ∧
    ∀ d ∈ more, d.isAlphanum = true ∨ d ∈ ['+', '.', '-']

/-- What follows the slashes of a location is not empty, has no blank, and does not begin with a
slash, a question mark or a hash. -/
def IsLocationRest (word : List Char) : Prop :=
  (∀ c ∈ word, isBlankChar c = false) ∧ ∃ c more, word = c :: more ∧ c ∉ ['/', '?', '#']

/-- A scheme, a colon, two slashes, and a rest. -/
def IsLocation (text : List Char) : Prop :=
  ∃ scheme rest, text = scheme ++ ':' :: '/' :: '/' :: rest ∧ IsScheme scheme ∧ IsLocationRest rest

namespace Regex

variable {a : Regex} {parts : List Regex} {before word after text : List Char} {c : Char}

/-! ### Lists of expressions -/

theorem spells_concat_nil_iff : (concat []).Spells before word after ↔ word = [] :=
  spells_empty_iff

theorem spells_concat_cons_iff : (concat (a :: parts)).Spells before word after ↔
    ∃ u v, word = u ++ v ∧ a.Spells before u (v ++ after) ∧
      (concat parts).Spells (before ++ u) v after :=
  spells_seq_iff

theorem spells_concat_char_iff : (concat (char c :: parts)).Spells before word after ↔
    ∃ v, word = c :: v ∧ (concat parts).Spells (before ++ [c]) v after := by
  simp [spells_concat_cons_iff, spells_char_iff]

/-- What ends with the test for the end of the text spells words that end there. -/
theorem spells_concat_textEnd_iff :
    (concat (parts ++ [look .textEnd])).Spells before word after ↔
      (concat parts).Spells before word after ∧ after = [] := by
  induction parts generalizing before word with
  | nil =>
    rw [List.nil_append, spells_concat_cons_iff]
    simp [spells_textEnd_iff, spells_concat_nil_iff]
  | cons a parts ih =>
    simp only [List.cons_append, spells_concat_cons_iff, ih]
    constructor
    · rintro ⟨u, v, he, hu, hv, hafter⟩
      exact ⟨⟨u, v, he, hu, hv⟩, hafter⟩
    · rintro ⟨⟨u, v, he, hu, hv⟩, hafter⟩
      exact ⟨u, v, he, hu, hv, hafter⟩

/-- What is bound to both ends occurs if and only if it spells the whole text. -/
theorem occurs_anchored_iff :
    (concat (look .textStart :: (parts ++ [look .textEnd]))).Occurs text ↔
      (concat parts).Spells [] text [] := by
  simp only [occurs_iff_spells, spells_concat_cons_iff, spells_textStart_iff,
    spells_concat_textEnd_iff]
  constructor
  · rintro ⟨before, word, after, htext, u, v, rfl, ⟨rfl, rfl⟩, hv, rfl⟩
    simpa [htext] using hv
  · intro h
    exact ⟨[], text, [], by simp, [], text, rfl, ⟨rfl, rfl⟩, h, rfl⟩

/-! ### Mail addresses -/

/-- The expression of a mail address with given classes for the characters of its parts. -/
def mailOf (part top : CharClass) : Regex :=
  concat (.look .textStart :: ([plus (.chars part), char '@', plus (.chars part), char '.',
    plus (.chars top)] ++ [.look .textEnd]))

theorem occurs_mailOf_iff {part top : CharClass}
    (hpart : ∀ c, part.contains c = true ↔ isBlankChar c = false ∧ c ∉ ['@'])
    (htop : ∀ c, top.contains c = true ↔ isBlankChar c = false ∧ c ∉ ['@', '.']) :
    (mailOf part top).Occurs text ↔ IsMailAddress text := by
  have hplus {cls : CharClass} {others before word after : List Char}
      (hcls : ∀ c, cls.contains c = true ↔ isBlankChar c = false ∧ c ∉ others) :
      (plus (chars cls)).Spells before word after ↔ IsMailPart others word := by
    simp only [spells_plus_chars_iff, hcls, IsMailPart]
  rw [mailOf, occurs_anchored_iff]
  constructor
  · intro h
    obtain ⟨name, _, htext, hname, hat⟩ := spells_concat_cons_iff.1 h
    obtain ⟨_, rfl, hdomain⟩ := spells_concat_char_iff.1 hat
    obtain ⟨host, _, rfl, hhost, hpoint⟩ := spells_concat_cons_iff.1 hdomain
    obtain ⟨_, rfl, hend⟩ := spells_concat_char_iff.1 hpoint
    obtain ⟨last, _, rfl, hlast, hnil⟩ := spells_concat_cons_iff.1 hend
    obtain rfl := spells_concat_nil_iff.1 hnil
    rw [List.append_nil] at htext
    exact ⟨name, host, last, htext, (hplus hpart).1 hname, (hplus hpart).1 hhost,
      (hplus htop).1 hlast⟩
  · rintro ⟨name, host, last, htext, hname, hhost, hlast⟩
    rw [htext]
    refine spells_concat_cons_iff.2 ⟨name, _, rfl, (hplus hpart).2 hname, ?_⟩
    refine spells_concat_char_iff.2 ⟨_, rfl, ?_⟩
    refine spells_concat_cons_iff.2 ⟨host, _, rfl, (hplus hpart).2 hhost, ?_⟩
    refine spells_concat_char_iff.2 ⟨_, rfl, ?_⟩
    exact spells_concat_cons_iff.2 ⟨last, [], (List.append_nil last).symm, (hplus htop).2 hlast,
      spells_concat_nil_iff.2 rfl⟩

/-- What is read from the source of the format occurs in the texts that are mail addresses. -/
theorem exists_tree_email : ∃ tree, treeOfSource? Format.email.source = some tree ∧
    ∀ text, tree.regex.Occurs text ↔ IsMailAddress text := by
  have hread : (treeOfSource? Format.email.source).map RegexTree.regex =
      some (mailOf (.compl (.union .blank (.ofList ['@'])))
        (.compl (.union (.char '.') (.union .blank (.ofList ['@']))))) := by
    decide +kernel
  obtain ⟨tree, htree, hregex⟩ := Option.map_eq_some_iff.1 hread
  refine ⟨tree, htree, fun text ↦ ?_⟩
  rw [hregex]
  refine occurs_mailOf_iff (by simp) fun c ↦ ?_
  simp [and_comm, and_assoc]

/-! ### Locations -/

/-- The expression of a location with given classes for the characters of its parts. -/
def locationOf (letter sign first more : CharClass) : Regex :=
  concat (.look .textStart :: ([.chars letter, .star (.chars sign), char ':', char '/', char '/',
    plus (.chars first), .star (.chars more)] ++ [.look .textEnd]))

/-- An authority and what follows it make up a rest: of the classes of an authority only that of its
first character matters, since the others may stand after it as well. -/
theorem spells_locationRest_iff {first more : CharClass}
    (hfirst : ∀ c, first.contains c = true ↔ isBlankChar c = false ∧ c ∉ ['/', '?', '#'])
    (hmore : ∀ c, more.contains c = true ↔ isBlankChar c = false) :
    (concat [plus (.chars first), .star (.chars more)]).Spells before word after ↔
      IsLocationRest word := by
  simp only [spells_concat_cons_iff, spells_concat_nil_iff, spells_plus_chars_iff,
    spells_star_chars_iff, hfirst, hmore]
  constructor
  · rintro ⟨u, _, rfl, ⟨hne, hu⟩, v, _, rfl, hv, rfl⟩
    obtain ⟨c, u, rfl⟩ := List.exists_cons_of_ne_nil hne
    refine ⟨fun d hd ↦ ?_, c, _, rfl, (hu c List.mem_cons_self).2⟩
    rw [List.append_nil, List.mem_append] at hd
    exact hd.elim (fun hd ↦ (hu d hd).1) (hv d)
  · rintro ⟨hall, c, v, rfl, hc⟩
    obtain ⟨hblank, hv⟩ := List.forall_mem_cons.1 hall
    refine ⟨[c], v, rfl, ⟨List.cons_ne_nil c [], ?_⟩, v, [], (List.append_nil v).symm, hv, rfl⟩
    exact List.forall_mem_singleton.2 ⟨hblank, hc⟩

theorem occurs_locationOf_iff {letter sign first more : CharClass}
    (hletter : ∀ c, letter.contains c = true ↔ c.isAlpha = true)
    (hsign : ∀ c, sign.contains c = true ↔ c.isAlphanum = true ∨ c ∈ ['+', '.', '-'])
    (hfirst : ∀ c, first.contains c = true ↔ isBlankChar c = false ∧ c ∉ ['/', '?', '#'])
    (hmore : ∀ c, more.contains c = true ↔ isBlankChar c = false) :
    (locationOf letter sign first more).Occurs text ↔ IsLocation text := by
  have hrest {before word after : List Char} :
      (concat [plus (.chars first), .star (.chars more)]).Spells before word after ↔
        IsLocationRest word := spells_locationRest_iff hfirst hmore
  have hsigns {before word after : List Char} : (star (chars sign)).Spells before word after ↔
      ∀ c ∈ word, c.isAlphanum = true ∨ c ∈ ['+', '.', '-'] := by
    simp only [spells_star_chars_iff, hsign]
  rw [locationOf, occurs_anchored_iff]
  constructor
  · intro h
    obtain ⟨_, _, htext, hbegin, hmiddle⟩ := spells_concat_cons_iff.1 h
    obtain ⟨c, rfl, hc⟩ := spells_chars_iff.1 hbegin
    obtain ⟨signs, _, rfl, hall, hcolon⟩ := spells_concat_cons_iff.1 hmiddle
    obtain ⟨_, rfl, hslash⟩ := spells_concat_char_iff.1 hcolon
    obtain ⟨_, rfl, hslash'⟩ := spells_concat_char_iff.1 hslash
    obtain ⟨rest, rfl, hend⟩ := spells_concat_char_iff.1 hslash'
    exact ⟨c :: signs, rest, htext, ⟨c, signs, rfl, (hletter c).1 hc, hsigns.1 hall⟩,
      hrest.1 hend⟩
  · rintro ⟨_, rest, htext, ⟨c, signs, rfl, hc, hall⟩, hend⟩
    rw [htext]
    refine spells_concat_cons_iff.2 ⟨[c], _, rfl, spells_chars_iff.2 ⟨c, rfl, (hletter c).2 hc⟩, ?_⟩
    refine spells_concat_cons_iff.2 ⟨signs, _, rfl, hsigns.2 hall, ?_⟩
    refine spells_concat_char_iff.2 ⟨_, rfl, ?_⟩
    refine spells_concat_char_iff.2 ⟨_, rfl, ?_⟩
    exact spells_concat_char_iff.2 ⟨rest, rfl, hrest.2 hend⟩

/-- The class `[A-Za-z]` as it is read. -/
def readLetter : CharClass := .union (.range 'a' 'z') (.union (.range 'A' 'Z') .none)

/-- The class `[A-Za-z0-9+.\-]` as it is read. -/
def readSign : CharClass :=
  .union (.char '-') (.union (.char '.') (.union (.char '+') (.union (.range '0' '9') readLetter)))

/-- The class `[^\s/?#]` as it is read. -/
def readFirst : CharClass :=
  .compl (.union (.char '#') (.union (.char '?') (.union (.char '/') (.union .blank .none))))

theorem contains_readLetter : readLetter.contains c = c.isAlpha := by
  rw [readLetter, CharClass.contains_union, CharClass.contains_union, CharClass.contains_lower,
    CharClass.contains_upper, CharClass.contains_none, Bool.or_false, Bool.or_comm]
  rfl

theorem contains_readSign :
    readSign.contains c = true ↔ c.isAlphanum = true ∨ c ∈ ['+', '.', '-'] := by
  simp only [readSign, CharClass.contains_union, CharClass.contains_char,
    CharClass.contains_decimal, contains_readLetter, Char.isAlphanum, Bool.or_eq_true,
    decide_eq_true_iff, List.mem_cons, List.not_mem_nil, or_false]
  tauto

theorem contains_readFirst :
    readFirst.contains c = true ↔ isBlankChar c = false ∧ c ∉ ['/', '?', '#'] := by
  simp only [readFirst, CharClass.contains_compl, CharClass.contains_union,
    CharClass.contains_char, CharClass.contains_blank, CharClass.contains_none, Bool.not_eq_true',
    Bool.or_eq_false_iff, decide_eq_false_iff_not, List.mem_cons, List.not_mem_nil, or_false,
    not_or, and_true]
  tauto

/-- What is read from the source of the format occurs in the texts that are locations. -/
theorem exists_tree_url : ∃ tree, treeOfSource? Format.url.source = some tree ∧
    ∀ text, tree.regex.Occurs text ↔ IsLocation text := by
  have hread : (treeOfSource? Format.url.source).map RegexTree.regex =
      some (locationOf readLetter readSign readFirst (.compl .blank)) := by
    decide +kernel
  obtain ⟨tree, htree, hregex⟩ := Option.map_eq_some_iff.1 hread
  refine ⟨tree, htree, fun text ↦ ?_⟩
  rw [hregex]
  exact occurs_locationOf_iff (fun _ ↦ by rw [contains_readLetter]) (fun _ ↦ contains_readSign)
    (fun _ ↦ contains_readFirst) (by simp)

end Regex

/-! ### Engines -/

/-- An engine searches for the formats if it finds them in the texts in which the expressions that
their sources spell out occur. -/
structure Engine.Searches (E : Engine) : Prop where
  /-- An expression may begin and end anywhere in the text. -/
  isMatch_iff : ∀ (format : Format) (tree : RegexTree),
    Regex.treeOfSource? format.source = some tree →
    ∀ s, (E.matcher format).isMatch s = true ↔ tree.regex.Occurs s.toList

namespace Engine.Searches

variable {E : Engine} {s : String}

theorem isMatch_email_iff (h : E.Searches) :
    (E.matcher .email).isMatch s = true ↔ IsMailAddress s.toList := by
  obtain ⟨tree, htree, hoccurs⟩ := Regex.exists_tree_email
  rw [h.isMatch_iff .email tree htree, hoccurs]

theorem isMatch_url_iff (h : E.Searches) :
    (E.matcher .url).isMatch s = true ↔ IsLocation s.toList := by
  obtain ⟨tree, htree, hoccurs⟩ := Regex.exists_tree_url
  rw [h.isMatch_iff .url tree htree, hoccurs]

end Engine.Searches

/-- The engine that goes through texts place by place searches for the formats. -/
theorem Regex.searches_engine : Regex.engine.Searches := by
  refine ⟨fun format tree htree s ↦ ?_⟩
  obtain ⟨r, hsource⟩ := Option.isSome_iff_exists.1 (isSome_ofSource?_format format)
  have hmatcher : engine.matcher format = ⟨r.isMatch⟩ :=
    Except.ok.inj ((engine.read_format format).symm.trans (engine_read hsource))
  obtain rfl : tree.regex = r := by
    rw [ofSource?, htree, Option.bind_eq_bind, Option.bind_some, RegexTree.regex?,
      Option.ite_none_right_eq_some] at hsource
    exact Option.some.inj hsource.2
  rw [hmatcher, isMatch_iff]

end JsonPattern
