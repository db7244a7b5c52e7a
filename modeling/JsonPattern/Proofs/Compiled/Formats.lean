import JsonPattern.Proofs.Compiled.Sharing
import JsonPattern.Proofs.Graph.Table
import JsonPattern.Proofs.Regex.Formats
import JsonPattern.Regex.Search

/-!
# Formats of a compiled validator

Slots for mail addresses and for locations take the strings that are such texts. Any other string
has one failure, which names the format, and what is no string has one that asks for a string.
-/

namespace JsonPattern

/-- A check takes the strings of a language, and its failures name the language, or ask for a
string. -/
structure Table.TakesLanguage {ρ : Type} [DecidableEq ρ] (T : Table ρ) (r : ρ)
    (language : List Char → Prop) (label : String) : Prop where
  /-- A string conforms if and only if it is in the language. -/
  conforms_iff : ∀ path s, T.failures r path (.string s) = [] ↔ language s.toList
  /-- Any other string has one failure, which names the language. -/
  failures_eq : ∀ path s, ¬ language s.toList →
    T.failures r path (.string s) = [.unexpected path (Json.string s).text label]
  /-- What is no string has one failure, which asks for a string. -/
  failures_other_eq : ∀ path value, value.kind ≠ .string →
    T.failures r path value = [.unexpected path value.kind.label "string"]

namespace Table

variable {ρ : Type} [DecidableEq ρ] {T : Table ρ} {rank : ρ → Nat} {r : ρ} {matcher : Matcher}
  {label : String} {language : List Char → Prop}

/-- The check of an expression takes the texts in which the expression is found. -/
theorem Ranked.takesLanguage (h : T.Ranked Set.univ rank)
    (hcheck : T.check r = .regex matcher label)
    (hmatcher : ∀ s, matcher.isMatch s = true ↔ language s.toList) :
    T.TakesLanguage r language label := by
  have hstring (path : Path) (s : String) : T.failures r path (.string s) =
      if matcher.isMatch s then [] else [.unexpected path (Json.string s).text label] := by
    rw [h.failures_eq (Set.mem_univ r), hcheck]
  constructor
  case conforms_iff =>
    intro path s
    rw [hstring, ← hmatcher]
    split <;> simp [*]
  case failures_eq =>
    intro path s hs
    rw [hstring, if_neg (mt (hmatcher s).1 hs)]
  case failures_other_eq =>
    intro path value hkind
    rw [h.failures_eq (Set.mem_univ r), hcheck]
    cases value with
    | string s => exact absurd rfl hkind
    | _ => rfl

end Table

namespace Graph

variable {g : Graph} {E : Engine} {V : Validator} {id target : NodeId} {slot : Nat}

/-- The slot of an id holds the check of the type that the id stands for. -/
theorem HasSlot.check_eq_of_type {name : TypeName} (h : g.HasSlot E V id slot)
    (hstands : g.StandsFor id target (.type name)) : V.table.check slot = name.check E := by
  obtain ⟨root, slotOf, hcompile, hslot, hreach, rfl⟩ := h
  rw [hslot.check_slot_eq hcompile hreach, hstands.shape_eq]
  cases name <;> rfl

/-- The formats of a compiled validator are exact, if the engine searches for their texts. A slot of
the type `email` takes the strings that are a mail address, a slot of the type `url` those that are
a location; other values have a single failure. A mail address has exactly one at sign, and the last
point of what follows it is neither the first nor the last character there. -/
theorem formats_exact_of_compile (hE : E.Searches) (hslot : g.HasSlot E V id slot) :
    (g.StandsFor id target (.type .email) →
      V.table.TakesLanguage slot IsMailAddress "email" ∧
      ∀ path s, V.table.failures slot path (.string s) = [] →
        s.toList.count '@' = 1 ∧ ∀ name domain, s.toList = name ++ '@' :: domain →
          '.' ∈ domain ∧ ∀ u v, domain = u ++ '.' :: v → '.' ∉ v → u ≠ [] ∧ v ≠ []) ∧
    (g.StandsFor id target (.type .url) → V.table.TakesLanguage slot IsLocation "url") := by
  have ⟨root, _, hcompile, _⟩ := hslot
  obtain ⟨rank, hranked⟩ := exists_ranked_of_compile hcompile
  constructor
  · intro hstands
    have htakes : V.table.TakesLanguage slot IsMailAddress "email" :=
      hranked.takesLanguage (hslot.check_eq_of_type hstands) fun _ ↦ hE.isMatch_email_iff
    refine ⟨htakes, fun path s hs ↦ ?_⟩
    have hmail : IsMailAddress s.toList := (htakes.conforms_iff path s).1 hs
    exact ⟨hmail.count_at, fun name domain htext ↦ hmail.last_point htext⟩
  · intro hstands
    exact hranked.takesLanguage (hslot.check_eq_of_type hstands) fun _ ↦ hE.isMatch_url_iff

/-- A mail address, a reference to it, and a location. -/
def addresses : Graph :=
  ⟨#[some (.body (.type .email)), some (.cyclic ⟨0⟩), some (.body (.type .url))]⟩

/-- Values at the reference and at the location. -/
theorem formats_exact_addresses : ∃ V W, addresses.compileWith Regex.engine ⟨1⟩ = .ok V ∧
    addresses.compileWith Regex.engine ⟨2⟩ = .ok W ∧
    V.validate (.string "a@b.com") = [] ∧
    V.validate (.bool true) = [.unexpected .root "boolean" "string"] ∧
    W.validate (.string "ws://a") = [] := by
  have hmail : addresses.compileWith Regex.engine ⟨1⟩ =
      .ok ⟨#[.regex (Regex.engine.matcher .email) "email"], 0⟩ := rfl
  have hplace : addresses.compileWith Regex.engine ⟨2⟩ =
      .ok ⟨#[.regex (Regex.engine.matcher .url) "url"], 0⟩ := rfl
  have hstands : addresses.StandsFor ⟨1⟩ ⟨0⟩ (.type .email) := .cyclic rfl (.body rfl)
  have hstands' : addresses.StandsFor ⟨2⟩ ⟨2⟩ (.type .url) := .body rfl
  obtain ⟨htakes, -⟩ :=
    (formats_exact_of_compile Regex.searches_engine (hasSlot_root hmail)).1 hstands
  have htakes' :=
    (formats_exact_of_compile Regex.searches_engine (hasSlot_root hplace)).2 hstands'
  refine ⟨_, _, hmail, hplace, ?_, ?_, ?_⟩
  · refine (htakes.conforms_iff .root "a@b.com").2 ⟨['a'], ['b'], ['c', 'o', 'm'], ?_⟩
    decide
  · exact htakes.failures_other_eq .root (.bool true) (by decide)
  · refine (htakes'.conforms_iff .root "ws://a").2 ⟨['w', 's'], ['a'], by decide, ?_, ?_⟩
    · exact ⟨'w', ['s'], rfl, rfl, List.forall_mem_singleton.2 (.inl rfl)⟩
    · exact ⟨List.forall_mem_singleton.2 rfl, 'a', [], rfl, by decide⟩

end Graph

end JsonPattern
