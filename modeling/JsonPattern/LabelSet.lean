/-!
# Label sets

A label set is a list of strings without repeats, in the order in which the strings were first
inserted. Reports name what was expected by such sets, and the names that may open a member clause
form one. The order is visible in a report; `LabelSet.sameElements` compares without it.
-/

namespace JsonPattern

/-- A set of strings that remembers the order of first insertion. -/
structure LabelSet where
  /-- The elements, in order of first insertion. -/
  toList : List String
  /-- No element is repeated. -/
  nodup : toList.Nodup
  deriving DecidableEq

namespace LabelSet

/-- The set without elements. -/
def empty : LabelSet := ⟨[], List.nodup_nil⟩

instance : EmptyCollection LabelSet := ⟨empty⟩

instance : Inhabited LabelSet := ⟨empty⟩

instance : Membership String LabelSet := ⟨fun s a ↦ a ∈ s.toList⟩

instance (a : String) (s : LabelSet) : Decidable (a ∈ s) :=
  inferInstanceAs (Decidable (a ∈ s.toList))

theorem mem_toList {a : String} {s : LabelSet} : a ∈ s.toList ↔ a ∈ s := Iff.rfl

/-- Puts a string at the end, unless it is there already. -/
def insert (s : LabelSet) (a : String) : LabelSet :=
  if h : a ∈ s.toList then s
  else ⟨s.toList ++ [a], by
    rw [List.nodup_append]
    exact ⟨s.nodup, by simp, by
      intro x hx y hy
      rw [List.mem_singleton.1 hy]
      exact fun e ↦ h (e ▸ hx)⟩⟩

theorem toList_insert (s : LabelSet) (a : String) :
    (s.insert a).toList = if a ∈ s.toList then s.toList else s.toList ++ [a] := by
  unfold insert
  split <;> rfl

@[simp]
theorem mem_insert {s : LabelSet} {a b : String} : b ∈ s.insert a ↔ b ∈ s ∨ b = a := by
  rw [← mem_toList, toList_insert]
  split
  · next h => exact ⟨Or.inl, fun h' ↦ h'.elim id (fun e ↦ e ▸ h)⟩
  · simp [mem_toList]

/-- Inserts the strings of a list one after the other. -/
def insertAll (s : LabelSet) (labels : List String) : LabelSet := labels.foldl insert s

@[simp]
theorem mem_insertAll {s : LabelSet} {labels : List String} {a : String} :
    a ∈ s.insertAll labels ↔ a ∈ s ∨ a ∈ labels := by
  induction labels generalizing s with
  | nil => simp [insertAll]
  | cons b labels ih =>
    have h : s.insertAll (b :: labels) = (s.insert b).insertAll labels := rfl
    rw [h, ih, mem_insert, List.mem_cons, or_assoc]

/-- The set of the strings of a list, repeats dropped after their first occurrence. -/
def ofList (labels : List String) : LabelSet := empty.insertAll labels

/-- The set with a single element. -/
def singleton (a : String) : LabelSet := ofList [a]

instance : Union LabelSet := ⟨fun s t ↦ s.insertAll t.toList⟩

/-- The union of a list of sets, in order. -/
def unions (sets : List LabelSet) : LabelSet := sets.foldl (· ∪ ·) ∅

/-- The elements for which a test holds, in order. -/
def filter (s : LabelSet) (p : String → Bool) : LabelSet :=
  ⟨s.toList.filter p, s.nodup.sublist List.filter_sublist⟩

/-- Whether the set has no element. -/
def isEmpty (s : LabelSet) : Bool := s.toList.isEmpty

/-- Whether two sets have the same elements, in whatever order. Neither repeats an element, so it
is enough that one contains the other and is no longer. -/
def sameElements (s t : LabelSet) : Bool :=
  s.toList.length == t.toList.length && s.toList.all fun a ↦ decide (a ∈ t)

/-! ### Elements -/

@[simp]
theorem not_mem_empty {a : String} : a ∉ (∅ : LabelSet) := List.not_mem_nil

@[simp]
theorem mem_ofList {a : String} {labels : List String} : a ∈ ofList labels ↔ a ∈ labels := by
  rw [ofList, mem_insertAll]
  exact or_iff_right not_mem_empty

@[simp]
theorem mem_singleton {a b : String} : a ∈ singleton b ↔ a = b := by
  rw [singleton, mem_ofList, List.mem_singleton]

@[simp]
theorem mem_union {a : String} {s t : LabelSet} : a ∈ s ∪ t ↔ a ∈ s ∨ a ∈ t := mem_insertAll

@[simp]
theorem mem_filter {a : String} {s : LabelSet} {p : String → Bool} :
    a ∈ s.filter p ↔ a ∈ s ∧ p a := List.mem_filter

theorem mem_foldl_union {a : String} {sets : List LabelSet} {s : LabelSet} :
    a ∈ sets.foldl (· ∪ ·) s ↔ a ∈ s ∨ ∃ t ∈ sets, a ∈ t := by
  induction sets generalizing s with
  | nil => simp
  | cons t sets ih => simp [ih, or_assoc]

@[simp]
theorem mem_unions {a : String} {sets : List LabelSet} :
    a ∈ unions sets ↔ ∃ t ∈ sets, a ∈ t := by
  rw [unions, mem_foldl_union]
  exact or_iff_right not_mem_empty

/-! ### Order of elements -/

theorem eq_of_toList_eq {s t : LabelSet} (h : s.toList = t.toList) : s = t := by
  cases s
  cases t
  cases h
  rfl

theorem toList_insertAll {s : LabelSet} {labels : List String} (h : labels.Nodup) :
    (s.insertAll labels).toList = s.toList ++ labels.filter (· ∉ s) := by
  induction labels generalizing s with
  | nil => simp [insertAll]
  | cons a labels ih =>
    obtain ⟨ha, h⟩ := List.nodup_cons.1 h
    have hstep : s.insertAll (a :: labels) = (s.insert a).insertAll labels := rfl
    rw [hstep, ih h, toList_insert, List.filter_cons]
    have hfilter : labels.filter (· ∉ s.insert a) = labels.filter (· ∉ s) :=
      List.filter_congr fun b hb ↦ by
        have hne : b ≠ a := fun e ↦ ha (e ▸ hb)
        simp [hne]
    rw [hfilter]
    by_cases hmem : a ∈ s
    · rw [if_pos (mem_toList.2 hmem)]
      simp [hmem]
    · rw [if_neg (fun h ↦ hmem (mem_toList.1 h))]
      simp [hmem]

theorem toList_union (s t : LabelSet) : (s ∪ t).toList = s.toList ++ t.toList.filter (· ∉ s) :=
  toList_insertAll t.nodup

theorem union_assoc (s t u : LabelSet) : (s ∪ t) ∪ u = s ∪ (t ∪ u) := by
  refine eq_of_toList_eq ?_
  rw [toList_union, toList_union, toList_union, toList_union, List.filter_append,
    List.filter_filter, List.append_assoc]
  simp

@[simp]
theorem empty_union (s : LabelSet) : ∅ ∪ s = s := by
  refine eq_of_toList_eq ?_
  have hempty : (∅ : LabelSet).toList = [] := rfl
  simp [toList_union, hempty]

theorem unions_cons (s : LabelSet) (sets : List LabelSet) :
    unions (s :: sets) = s ∪ unions sets := by
  have hfold (t : LabelSet) : sets.foldl (· ∪ ·) t = t ∪ sets.foldl (· ∪ ·) ∅ := by
    induction sets generalizing t with
    | nil => rfl
    | cons u sets ih => rw [List.foldl_cons, List.foldl_cons, ih, ih (∅ ∪ u), empty_union,
        union_assoc]
  rw [unions, List.foldl_cons, hfold, empty_union, unions]

@[simp]
theorem union_empty (s : LabelSet) : s ∪ ∅ = s := rfl

theorem unions_append (sets others : List LabelSet) :
    unions (sets ++ others) = unions sets ∪ unions others := by
  induction sets with
  | nil => exact (empty_union _).symm
  | cons s sets ih => rw [List.cons_append, unions_cons, unions_cons, ih, union_assoc]

theorem isEmpty_iff {s : LabelSet} : s.isEmpty = true ↔ ∀ a, a ∉ s := by
  rw [isEmpty, List.isEmpty_iff, List.eq_nil_iff_forall_not_mem]
  exact Iff.rfl

theorem isEmpty_eq_false_iff {s : LabelSet} : s.isEmpty = false ↔ ∃ a, a ∈ s := by
  rw [← Bool.not_eq_true, isEmpty_iff]
  exact ⟨fun h ↦ Classical.not_forall_not.1 h, fun ⟨a, ha⟩ h ↦ h a ha⟩

end LabelSet

end JsonPattern
