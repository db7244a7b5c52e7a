import JsonPattern.Failure
import JsonPattern.Json.Equality
import JsonPattern.Proofs.Json.Reordering

/-!
# Comparing two runs

Two failures are alike if they differ at most in the order of their labels and, where this is let
pass, in the order of the names that they list as found. A `Comparison` says which values and which
members two runs may look at, and which failures they may then come to; it is closed under what
clauses do with members, and under what is done with failures.
-/

namespace JsonPattern

/-! ### Failures that are alike -/

/-- Two causes are the same up to the order of their labels. -/
inductive Cause.Same : Cause → Cause → Prop
  | one (label : String) : Same (.unexpected (.one label)) (.unexpected (.one label))
  | oneOf {labels others : LabelSet} (h : labels.Same others) :
      Same (.unexpected (.oneOf labels)) (.unexpected (.oneOf others))
  | ambiguity {labels others : LabelSet} (h : labels.Same others) :
      Same (.ambiguity labels) (.ambiguity others)

theorem Cause.Same.ofLabels {labels others : LabelSet} (h : labels.Same others) :
    Same (.unexpected (.ofLabels labels)) (.unexpected (.ofLabels others)) := by
  have hperm := h.perm
  unfold Expected.ofLabels
  split
  · next label hlabels =>
    rw [hlabels, List.singleton_perm] at hperm
    rw [← hperm]
    exact .one label
  · next hlabels =>
    split
    · next other hothers =>
      rw [hothers, List.perm_singleton] at hperm
      exact absurd hperm (hlabels other)
    · exact .oneOf h

/-- Two failures at the same place and for the same cause, of which the same is found. Where `loose`
holds of the first, both may list the names that are found in different orders. -/
structure Failure.Alike (loose : Failure → Prop) (a b : Failure) : Prop where
  /-- They are at the same place. -/
  path_eq : a.path = b.path
  /-- They have the same cause, up to the order of its labels. -/
  cause_same : a.cause.Same b.cause
  /-- The same is found, up to the order of the names that are listed. -/
  found_alike : a.found = b.found ∨ loose a ∧ ∃ names others : List String, names.Perm others ∧
    a.found = namesText names ∧ b.found = namesText others

namespace Failure.Alike

variable {loose : Failure → Prop} {path : Path} {found : String} {labels others : LabelSet}

theorem unexpected (label : String) :
    (Failure.unexpected path found label).Alike loose (.unexpected path found label) :=
  ⟨rfl, .one label, .inl rfl⟩

theorem unexpectedOf (h : labels.Same others) :
    (Failure.unexpectedOf path found labels).Alike loose (.unexpectedOf path found others) :=
  ⟨rfl, .ofLabels h, .inl rfl⟩

theorem ambiguous (h : labels.Same others) :
    (Failure.ambiguous path found labels).Alike loose (.ambiguous path found others) :=
  ⟨rfl, .ambiguity h, .inl rfl⟩

end Failure.Alike

/-! ### Comparisons -/

/-- Two values seen from their outsides: equal scalars, arrays of items that are compared, or
objects with members that are compared. -/
inductive Json.Sides (value : Json → Json → Prop) (members : Members → Members → Prop) :
    Json → Json → Prop
  | null : Sides value members .null .null
  | bool (b : Bool) : Sides value members (.bool b) (.bool b)
  | integer (n : Int) : Sides value members (.integer n) (.integer n)
  | float (x : Binary64) : Sides value members (.float x) (.float x)
  | string (s : String) : Sides value members (.string s) (.string s)
  | array {items others : List Json} (h : List.Forall₂ value items others) :
      Sides value members (.array items) (.array others)
  | object {ms ns : Members} (h : members ms ns) : Sides value members (.object ms) (.object ns)

namespace Json.Sides

variable {value : Json → Json → Prop} {members : Members → Members → Prop} {v w : Json}
  (h : Json.Sides value members v w)

include h

theorem kind_eq : v.kind = w.kind := by
  cases h <;> rfl

theorem isObject_eq : v.isObject = w.isObject := by
  cases h <;> rfl

theorem isArray_eq : v.isArray = w.isArray := by
  cases h <;> rfl

theorem shallowText_eq : v.shallowText = w.shallowText := by
  cases h <;> rfl

/-- Scalars do not tell the two values apart. -/
theorem equal_eq {literal : Json} (hliteral : literal.isScalar = true) :
    literal.equal v = literal.equal w := by
  cases h with
  | array | object => cases literal <;> first | rfl | cases hliteral
  | null | bool | integer | float | string => rfl

end Json.Sides

/-- What two runs may look at, and which failures they may then come to. -/
structure Comparison where
  /-- The failures that may list names in another order. -/
  loose : Failure → Prop
  /-- The values at hand. -/
  value : Json → Json → Prop
  /-- The members that are left. -/
  members : Members → Members → Prop
  /-- The failures that are met. -/
  failures : List Failure → List Failure → Prop
  /-- The names between which an ambiguity could not decide may be listed in another order. -/
  loose_of_isAmbiguity : ∀ failure, failure.isAmbiguity = true → loose failure
  /-- Values are of the same nesting. -/
  depth_eq : ∀ v w, value v w → v.depth = w.depth
  /-- Values have the same outsides, with parts that are compared. -/
  sides : ∀ v w, value v w → Json.Sides value members v w
  /-- Under every name stand values that are compared, or nothing. -/
  lookup_rel : ∀ ms ns, members ms ns → ∀ name,
    Option.Rel value (ms.lookup name) (ns.lookup name)
  /-- Members of the same names are left. -/
  names_perm : ∀ ms ns, members ms ns → ms.names.Perm ns.names
  /-- They are left in the same order, unless every failure may list names in another order. -/
  names_eq : ∀ ms ns, members ms ns → ms.names = ns.names ∨ ∀ failure, loose failure
  /-- A member that is taken is taken from both. -/
  without : ∀ ms ns, members ms ns → ∀ name, members (ms.without name) (ns.without name)
  /-- There may be no members left. -/
  members_nil : members [] []
  /-- There may be no failures. -/
  failures_nil : failures [] []
  /-- There may be one failure. -/
  failures_singleton : ∀ a b, a.Alike loose b → failures [a] [b]
  /-- Failures may follow upon failures. -/
  failures_append : ∀ as bs as' bs', failures as bs → failures as' bs' →
    failures (as ++ as') (bs ++ bs')

namespace Comparison

variable (C : Comparison)

/-- The failures of members, one after the other, are compared if those of the single members
are. -/
def Spreads : Prop :=
  ∀ (ms ns : Members) (f g : String → Json → List Failure), C.members ms ns →
    (∀ name v w, C.value v w → C.failures (f name v) (g name w)) →
    C.failures (ms.flatMap fun m ↦ f m.1 m.2) (ns.flatMap fun n ↦ g n.1 n.2)

variable {C}

theorem isEmpty_eq {ms ns : Members} (h : C.members ms ns) : ms.isEmpty = ns.isEmpty := by
  have hlength : ms.length = ns.length := by
    simpa only [Members.names, List.length_map] using (C.names_perm _ _ h).length_eq
  rw [Bool.eq_iff_iff, List.isEmpty_iff, List.isEmpty_iff, ← List.length_eq_zero_iff, hlength,
    List.length_eq_zero_iff]

theorem isSome_lookup_eq {ms ns : Members} (h : C.members ms ns) (name : String) :
    (ms.lookup name).isSome = (ns.lookup name).isSome := by
  have hrel := C.lookup_rel _ _ h name
  generalize ms.lookup name = v at hrel ⊢
  generalize ns.lookup name = w at hrel ⊢
  cases hrel <;> rfl

/-- Where members are left, or missing, their names are listed. -/
theorem leftOver {ms ns : Members} {path : Path} {labels others : LabelSet}
    (h : C.members ms ns) (hlabels : labels.Same others) :
    (Failure.unexpectedOf path (namesText ms.names) labels).Alike C.loose
      (.unexpectedOf path (namesText ns.names) others) :=
  ⟨rfl, .ofLabels hlabels, (C.names_eq _ _ h).imp (congrArg namesText) fun hloose ↦
    ⟨hloose _, _, _, C.names_perm _ _ h, rfl, rfl⟩⟩

/-- The failures of the items of an array. -/
theorem failures_items {items others : List Json} {f g : Nat → Json → List Failure}
    (h : List.Forall₂ C.value items others)
    (hfg : ∀ i v w, C.value v w → C.failures (f i v) (g i w)) :
    C.failures (items.zipIdx.flatMap fun entry ↦ f entry.2 entry.1)
      (others.zipIdx.flatMap fun entry ↦ g entry.2 entry.1) := by
  generalize 0 = first
  induction h generalizing first with
  | nil => exact C.failures_nil
  | cons hitem _ ih =>
    rw [List.zipIdx_cons, List.zipIdx_cons, List.flatMap_cons, List.flatMap_cons]
    exact C.failures_append _ _ _ _ (hfg first _ _ hitem) (ih (first + 1))

/-! ### The same value -/

/-- The same value is looked at. Only names that could not decide may be listed in another order,
and the failures are alike one by one. -/
def exact : Comparison where
  loose failure := failure.isAmbiguity = true
  value v w := v = w
  members ms ns := ms = ns
  failures := List.Forall₂ (Failure.Alike fun failure ↦ failure.isAmbiguity = true)
  loose_of_isAmbiguity _ h := h
  depth_eq _ _ h := congrArg Json.depth h
  sides v _ h := by
    subst h
    cases v with
    | array => exact .array (List.forall₂_same.2 fun _ _ ↦ rfl)
    | object => exact .object rfl
    | null | bool | integer | float | string => constructor
  lookup_rel ms _ h name := by
    subst h
    cases ms.lookup name with
    | none => exact .none
    | some => exact .some rfl
  names_perm _ _ h := h ▸ .refl _
  names_eq _ _ h := .inl (congrArg Members.names h)
  without _ _ h name := congrArg (Members.without · name) h
  members_nil := rfl
  failures_nil := .nil
  failures_singleton _ _ h := .cons h .nil
  failures_append _ _ _ _ h h' := List.rel_append h h'

theorem exact_spreads : exact.Spreads := by
  rintro ms _ f g rfl hfg
  induction ms with
  | nil => exact .nil
  | cons m ms ih => exact List.rel_append (hfg m.1 m.2 m.2 rfl) ih

/-! ### Members in another order -/

/-- A value and its reordering are looked at, and names may always be listed in another order. -/
def reordering (failures : List Failure → List Failure → Prop) (failures_nil : failures [] [])
    (failures_singleton : ∀ a b, a.Alike (fun _ ↦ True) b → failures [a] [b])
    (failures_append : ∀ as bs as' bs', failures as bs → failures as' bs' →
      failures (as ++ as') (bs ++ bs')) : Comparison where
  loose _ := True
  value v w := v.DistinctNames ∧ v.Reordered w
  members := Members.Reordered
  failures := failures
  loose_of_isAmbiguity _ _ := trivial
  depth_eq _ _ h := h.2.depth_eq
  sides v w h := by
    obtain ⟨hdistinct, h⟩ := h
    cases v with
    | array items =>
      obtain ⟨others, rfl, hitems⟩ := h
      rw [Json.DistinctNames, Json.itemsDistinctNames_iff] at hdistinct
      exact .array ((List.forall₂_and_left items others).2
        ⟨hdistinct, Json.itemsReordered_iff.1 hitems⟩)
    | object members =>
      obtain ⟨inOrder, others, rfl, hmembers, hperm⟩ := h
      rw [Json.DistinctNames, Json.membersDistinctNames_iff] at hdistinct
      exact .object ⟨⟨inOrder, Json.membersReordered_iff.1 hmembers, hperm⟩, hdistinct.1,
        hdistinct.2⟩
    | null | bool | integer | float | string => obtain rfl := h; constructor
  lookup_rel _ _ h name := h.lookup_rel name
  names_perm _ _ h := h.names_perm
  names_eq _ _ _ := .inr fun _ ↦ trivial
  without _ _ h name := h.without name
  members_nil := ⟨.nil, List.nodup_nil, fun _ h ↦ absurd h List.not_mem_nil⟩
  failures_nil := failures_nil
  failures_singleton := failures_singleton
  failures_append := failures_append

end Comparison

end JsonPattern
