import JsonPattern.Failure
import Mathlib.Data.List.Basic

/-!
# Failures read back from their structured form

The structured form of a failure has no tags: whether a step is a name or an index, whether one
thing was expected or several, and whether the failure is an ambiguity are seen from the shapes of
the members alone. For each part there is one statement that says which values are read as what.
Together they say that a failure is read back as it was written, and that what is read from any
other value is written again as it stood there, up to repeated labels and to members that a failure
does not have.

## Main definitions

* `Step.Fits`, `Path.Fits` : an index has 64 bits.
* `Expected.Rewrites` : what is expected, and how it is written again.

## Main results

* `Expected.ofJson?_eq_some_iff` : which values are read as an expectation.
* `Failure.ofJson?_eq_some_iff` : which values are read as a failure.
* `Failure.structured_form_round_trip` : a failure is read back as it was written, and other values
  are put in order.
-/

namespace JsonPattern

/-- If the items of a list are read one by one, exactly from what is written for items of a kind,
then lists are read exactly from what is written for lists of such items. -/
theorem mapM_eq_some_iff {α β : Type} {read : α → Option β} {write : β → α} {P : β → Prop}
    (h : ∀ a b, read a = some b ↔ a = write b ∧ P b) {as : List α} {bs : List β} :
    as.mapM read = some bs ↔ as = bs.map write ∧ ∀ b ∈ bs, P b := by
  induction as generalizing bs with
  | nil => cases bs <;> simp
  | cons a as ih =>
    simp only [List.mapM_cons, Option.bind_eq_bind, Option.bind_eq_some_iff, Option.pure_def,
      Option.some.injEq, h, ih]
    constructor
    · rintro ⟨b, ⟨rfl, hb⟩, bs, ⟨rfl, hbs⟩, rfl⟩
      exact ⟨rfl, List.forall_mem_cons.2 ⟨hb, hbs⟩⟩
    · rintro ⟨has, hbs⟩
      cases bs with
      | nil => cases has
      | cons b bs =>
        obtain ⟨rfl, rfl⟩ := List.cons.inj has
        obtain ⟨hb, hbs⟩ := List.forall_mem_cons.1 hbs
        exact ⟨b, ⟨rfl, hb⟩, bs, ⟨rfl, hbs⟩, rfl⟩

/-! ### Paths -/

/-- A step that has a structured form: an index is a word of 64 bits. -/
def Step.Fits : Step → Prop
  | .name _ => True
  | .index i => i < UInt64.size

/-- A path all of whose steps have a structured form. -/
def Path.Fits (path : Path) : Prop := ∀ step ∈ path.steps, step.Fits

theorem Json.word?_eq_some_iff {value : Json} {i : Nat} :
    value.word? = some i ↔ value = .integer i ∧ i < UInt64.size := by
  cases value with
  | integer n =>
    simp only [word?, Option.ite_none_right_eq_some, Option.some.injEq, integer.injEq]
    omega
  | null | bool | float | string | array | object => simp [word?]

theorem Json.string?_eq_some_iff {value : Json} {s : String} :
    value.string? = some s ↔ value = .string s := by
  cases value <;> simp [string?]

/-- A string is read as a name, whatever it looks like, and a number as an index. -/
theorem Step.ofJson?_eq_some_iff {value : Json} {step : Step} :
    Step.ofJson? value = some step ↔ value = step.toJson ∧ step.Fits := by
  cases step with
  | name label => cases value <;> simp [ofJson?, toJson, Fits]
  | index i =>
    have hword : Step.ofJson? value = some (.index i) ↔ value.word? = some i := by
      cases value <;> simp [ofJson?, Json.word?]
    rw [hword, Json.word?_eq_some_iff]
    rfl

theorem Path.ofJson?_eq_some_iff {value : Json} {path : Path} :
    Path.ofJson? value = some path ↔ value = path.toJson ∧ path.Fits := by
  obtain ⟨steps⟩ := path
  cases value with
  | array items =>
    simp only [ofJson?, Option.map_eq_some_iff, mapM_eq_some_iff fun _ _ ↦ Step.ofJson?_eq_some_iff]
    simp [toJson, Fits]
  | null | bool | integer | float | string | object => simp [ofJson?, toJson]

/-! ### Labels -/

namespace LabelSet

/-- Strings that are inserted one after the other come after those that are there already, each at
its first occurrence. -/
theorem toList_insertAll_eraseDups (s : LabelSet) (labels : List String) :
    (s.insertAll labels).toList = s.toList ++ (labels.filter (· ∉ s)).eraseDups := by
  induction labels generalizing s with
  | nil => simp [insertAll]
  | cons a labels ih =>
    have hstep : s.insertAll (a :: labels) = (s.insert a).insertAll labels := rfl
    rw [hstep, ih, toList_insert, List.filter_cons]
    by_cases ha : a ∈ s
    · have hsame : s.insert a = s := dif_pos ha
      rw [if_pos (mem_toList.2 ha), hsame, if_neg (by simpa using ha)]
    · have hfilter : labels.filter (· ∉ s.insert a) =
          (labels.filter (· ∉ s)).filter fun b ↦ !b == a := by
        rw [List.filter_filter]
        refine List.filter_congr fun b _ ↦ ?_
        by_cases hb : b = a <;> simp [hb]
      rw [if_neg (fun h ↦ ha (mem_toList.1 h)), if_pos (by simpa using ha), List.eraseDups_cons,
        hfilter, List.append_assoc, List.singleton_append]

theorem toList_ofList (labels : List String) : (ofList labels).toList = labels.eraseDups := by
  have hempty : empty.toList = [] := rfl
  have hall : labels.filter (· ∉ empty) = labels := by
    simp [← mem_toList, hempty]
  rw [ofList, toList_insertAll_eraseDups, hall, hempty, List.nil_append]

/-- A set is made of its elements. -/
theorem ofList_toList (s : LabelSet) : ofList s.toList = s := by
  have hempty : empty.toList = [] := rfl
  refine eq_of_toList_eq ?_
  rw [ofList, toList_insertAll s.nodup, hempty]
  simp [← mem_toList, hempty]

/-- A list of strings is read as the set of its elements. -/
theorem ofJson?_eq_some_iff {value : Json} {s : LabelSet} :
    LabelSet.ofJson? value = some s ↔
      ∃ labels : List String, value = .array (labels.map .string) ∧ s = ofList labels := by
  have hstring (value : Json) (label : String) :
      value.string? = some label ↔ value = .string label ∧ True := by
    rw [Json.string?_eq_some_iff, and_true]
  cases value with
  | array items =>
    simp only [ofJson?, Option.map_eq_some_iff, mapM_eq_some_iff hstring, Json.array.injEq]
    simp [eq_comm]
  | null | bool | integer | float | string | object => simp [ofJson?]

end LabelSet

/-! ### Causes -/

/-- Something that may be expected, and how it is written again: a label stays as it is, and a list
of labels keeps each one at its first occurrence. -/
inductive Expected.Rewrites : Json → Json → Prop
  | label (label : String) : Rewrites (.string label) (.string label)
  | labels (labels : List String) :
      Rewrites (.array (labels.map .string)) (.array (labels.eraseDups.map .string))

/-- What is read as an expectation is written again without its repeats. -/
theorem Expected.ofJson?_eq_some_iff {value : Json} {expected : Expected} :
    Expected.ofJson? value = some expected ↔
      (∃ label, value = .string label ∧ expected = .one label) ∨
        ∃ labels : List String, value = .array (labels.map .string) ∧
          expected = .oneOf (.ofList labels) := by
  cases value with
  | string s => simp [ofJson?, eq_comm]
  | array items =>
    simp only [ofJson?, Option.map_eq_some_iff, LabelSet.ofJson?_eq_some_iff]
    constructor
    · rintro ⟨_, ⟨labels, hvalue, rfl⟩, rfl⟩
      exact .inr ⟨labels, hvalue, rfl⟩
    · rintro (⟨_, hvalue, -⟩ | ⟨labels, hvalue, rfl⟩)
      · cases hvalue
      · exact ⟨_, ⟨labels, hvalue, rfl⟩, rfl⟩
  | null | bool | integer | float | object => simp [ofJson?, LabelSet.ofJson?]

theorem LabelSet.toJson_ofList (labels : List String) :
    (LabelSet.ofList labels).toJson = .array (labels.eraseDups.map .string) := by
  rw [toJson, toList_ofList]

theorem LabelSet.ofJson?_toJson (s : LabelSet) : LabelSet.ofJson? s.toJson = some s :=
  ofJson?_eq_some_iff.2 ⟨s.toList, rfl, s.ofList_toList.symm⟩

theorem Expected.ofJson?_toJson (expected : Expected) :
    Expected.ofJson? expected.toJson = some expected := by
  cases expected with
  | one label => rfl
  | oneOf labels =>
    exact ofJson?_eq_some_iff.2 (.inr ⟨labels.toList, rfl, congrArg _ labels.ofList_toList.symm⟩)

theorem Expected.rewrites_of_ofJson? {value : Json} {expected : Expected}
    (h : Expected.ofJson? value = some expected) : Rewrites value expected.toJson := by
  rcases ofJson?_eq_some_iff.1 h with ⟨label, rfl, rfl⟩ | ⟨labels, rfl, rfl⟩
  · exact .label label
  · rw [toJson, LabelSet.toJson_ofList]
    exact .labels labels

/-- Whatever may be expected is read. -/
theorem Expected.Rewrites.exists_ofJson? {value value' : Json} (h : Rewrites value value') :
    ∃ expected, Expected.ofJson? value = some expected := by
  cases h with
  | label label => exact ⟨_, rfl⟩
  | labels labels => exact ⟨_, ofJson?_eq_some_iff.2 (.inr ⟨labels, rfl, rfl⟩)⟩

/-- A cause is an expectation, if a usable one is there, and otherwise an ambiguity. -/
theorem Cause.ofMembers?_eq_some_iff {members : Members} {cause : Cause} :
    Cause.ofMembers? members = some cause ↔
      (∃ value expected, members.lookup "expected" = some value ∧
        Expected.ofJson? value = some expected ∧ cause = .unexpected expected) ∨
      (∀ value, members.lookup "expected" = some value → Expected.ofJson? value = none) ∧
        ∃ value overlapping, members.lookup "overlapping_patterns" = some value ∧
          LabelSet.ofJson? value = some overlapping ∧ cause = .ambiguity overlapping := by
  rw [ofMembers?, Option.bind_eq_bind, Option.bind_eq_bind]
  cases hexpected : (members.lookup "expected").bind Expected.ofJson? with
  | some expected =>
    obtain ⟨value, hlookup, hvalue⟩ := Option.bind_eq_some_iff.1 hexpected
    simp [hlookup, hvalue, eq_comm]
  | none =>
    have hunusable : ∀ value, members.lookup "expected" = some value →
        Expected.ofJson? value = none := by
      intro value hlookup
      rwa [hlookup] at hexpected
    simp only [Option.map_eq_some_iff, Option.bind_eq_some_iff]
    constructor
    · rintro ⟨overlapping, ⟨value, hlookup, hvalue⟩, rfl⟩
      exact .inr ⟨hunusable, value, overlapping, hlookup, hvalue, rfl⟩
    · rintro (⟨value, expected, hlookup, hvalue, -⟩ | ⟨-, value, overlapping, hlookup, hvalue, rfl⟩)
      · rw [hunusable value hlookup] at hvalue
        cases hvalue
      · exact ⟨overlapping, ⟨value, hlookup, hvalue⟩, rfl⟩

/-! ### Failures -/

namespace Failure

/-- A failure is read from its place, from what was found there, and from its cause. -/
theorem ofJson?_eq_some_iff {members : Members} {failure : Failure} :
    Failure.ofJson? (.object members) = some failure ↔
      members.lookup "path" = some failure.path.toJson ∧ failure.path.Fits ∧
        members.lookup "found" = some (.string failure.found) ∧
          Cause.ofMembers? members = some failure.cause := by
  obtain ⟨path, found, cause⟩ := failure
  simp only [ofJson?, Option.bind_eq_bind, Option.bind_eq_some_iff, Option.pure_def,
    Option.some.injEq, Path.ofJson?_eq_some_iff, Json.string?_eq_some_iff]
  constructor
  · rintro ⟨path', ⟨_, hpath, rfl, hfits⟩, found', ⟨_, hfound, rfl⟩, cause', hcause, he⟩
    cases he
    exact ⟨hpath, hfits, hfound, hcause⟩
  · rintro ⟨hpath, hfits, hfound, hcause⟩
    exact ⟨path, ⟨_, hpath, rfl, hfits⟩, found, ⟨_, hfound, rfl⟩, cause, hcause, rfl⟩

/-- A failure is read back as it was written. -/
theorem ofJson?_toJson {failure : Failure} (h : failure.path.Fits) :
    Failure.ofJson? failure.toJson = some failure := by
  refine ofJson?_eq_some_iff.2 ⟨rfl, h, rfl, Cause.ofMembers?_eq_some_iff.2 ?_⟩
  cases failure.cause with
  | unexpected expected => exact .inl ⟨_, expected, rfl, expected.ofJson?_toJson, rfl⟩
  | ambiguity overlapping =>
    have hnone (value : Json) (h : none = some value) : Expected.ofJson? value = none := nomatch h
    exact .inr ⟨hnone, _, overlapping, rfl, overlapping.ofJson?_toJson, rfl⟩

/-- A failure in structured form is read back as it was written, with the same variant and the
labels in the same order. A string among the steps is a name, also one that looks like a number. If
a value is read as a failure, then it is an object, and the failure is written again with its path,
its text and one member more: what was expected, if the object says so in a usable way, and
otherwise the overlapping patterns. They are as they were, but each label of a list is kept at its
first occurrence only; so what is written again is read as the same failure. -/
theorem structured_form_round_trip :
    (∀ failure : Failure, failure.path.Fits → ofJson? failure.toJson = some failure) ∧
    (∀ (label : String) (step : Step),
      Step.ofJson? (.string label) = some step ↔ step = .name label) ∧
    ∀ (value : Json) (failure : Failure), ofJson? value = some failure →
      ofJson? failure.toJson = some failure ∧
      ∃ members path found, value = .object members ∧ members.lookup "path" = some path ∧
        members.lookup "found" = some found ∧
        ((∃ expected expected', members.lookup "expected" = some expected ∧
            Expected.Rewrites expected expected' ∧
            failure.toJson = .object [("path", path), ("found", found), ("expected", expected')]) ∨
          (∀ expected, members.lookup "expected" = some expected →
            ∀ expected', ¬ Expected.Rewrites expected expected') ∧
          ∃ labels : List String,
            members.lookup "overlapping_patterns" = some (.array (labels.map .string)) ∧
            failure.toJson = .object [("path", path), ("found", found),
              ("overlapping_patterns", .array (labels.eraseDups.map .string))]) := by
  refine ⟨fun failure ↦ ofJson?_toJson, fun label step ↦ by simp [Step.ofJson?, eq_comm], ?_⟩
  intro value failure h
  cases value with
  | object members =>
    obtain ⟨hpath, hfits, hfound, hcause⟩ := ofJson?_eq_some_iff.1 h
    refine ⟨ofJson?_toJson hfits, members, _, _, rfl, hpath, hfound, ?_⟩
    rcases Cause.ofMembers?_eq_some_iff.1 hcause with
      ⟨value, expected, hlookup, hvalue, he⟩ | ⟨hunusable, value, overlapping, hlookup, hvalue, he⟩
    · refine .inl ⟨value, _, hlookup, Expected.rewrites_of_ofJson? hvalue, ?_⟩
      rw [toJson, he, Cause.toMember]
    · obtain ⟨labels, rfl, rfl⟩ := LabelSet.ofJson?_eq_some_iff.1 hvalue
      refine .inr ⟨?_, labels, hlookup, ?_⟩
      · intro expected hexpected expected' hrewrites
        obtain ⟨_, hread⟩ := hrewrites.exists_ofJson?
        rw [hunusable expected hexpected] at hread
        cases hread
      · rw [toJson, he, Cause.toMember, LabelSet.toJson_ofList]
  | null | bool | integer | float | string | array => cases h

/-- An ambiguity under a name and an index that look alike. -/
def ambiguousAlike : Failure :=
  ⟨⟨[.name "17", .index 17, .index 18446744073709551615]⟩, "3", .ambiguity (.ofList ["integer"])⟩

/-- What may be read as an ambiguity: nothing usable is expected, one label is repeated, and there
is a member that failures do not have. -/
def looseAmbiguity : Json := .object [("expected", .integer 3), ("note", .null),
  ("overlapping_patterns", .array [.string "b", .string "a", .string "b"]),
  ("found", .string "3"), ("path", .array [.string "17", .integer 17])]

/-- The one is read back as it is, and the other one is put in order. -/
theorem structured_form_ambiguousAlike :
    (ambiguousAlike.path.Fits ∧ ofJson? ambiguousAlike.toJson = some ambiguousAlike) ∧
    ∃ failure, ofJson? looseAmbiguity = some failure ∧
      ofJson? failure.toJson = some failure ∧ failure.isAmbiguity = true ∧
      failure.toJson = .object [("path", .array [.string "17", .integer 17]),
        ("found", .string "3"),
        ("overlapping_patterns", .array [.string "b", .string "a"])] := by
  have hfits : ambiguousAlike.path.Fits := by
    simp [Path.Fits, Step.Fits, ambiguousAlike, UInt64.size]
  obtain ⟨hwritten, -, hread⟩ := structured_form_round_trip
  have hloose : ofJson? looseAmbiguity = some ⟨⟨[.name "17", .index 17]⟩, "3",
      .ambiguity (.ofList ["b", "a", "b"])⟩ := by decide
  exact ⟨⟨hfits, hwritten ambiguousAlike hfits⟩, _, hloose, (hread _ _ hloose).1, rfl, rfl⟩

end Failure

end JsonPattern
