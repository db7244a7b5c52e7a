import JsonPattern.Proofs.Json.Members
import JsonPattern.Proofs.UpToOrder

/-!
# Values whose members stand in another order

A value is a reordering of another one if it arises from it by permuting the members of objects, at
any depth. The names of an object are meant to be different from each other; then a reordering has
the same members to look up and to pass over.
-/

namespace JsonPattern

namespace Json

mutual

/-- A value with the members of any of its objects, at any depth, in another order. -/
def Reordered : Json → Json → Prop
  | .array items, w => ∃ others, w = .array others ∧ ItemsReordered items others
  | .object members, w => ∃ inOrder others, w = .object others ∧
      MembersReordered members inOrder ∧ inOrder.Perm others
  | v, w => w = v
termination_by structural value => value

/-- The items of an array, each with members in another order. -/
def ItemsReordered : List Json → List Json → Prop
  | [], others => others = []
  | item :: items, others => ∃ other rest, others = other :: rest ∧
      Reordered item other ∧ ItemsReordered items rest
termination_by structural items => items

/-- Members that keep their places and their names, but whose values have members in another
order. -/
def MembersReordered : List (String × Json) → List (String × Json) → Prop
  | [], others => others = []
  | (name, value) :: members, others => ∃ other rest, others = (name, other) :: rest ∧
      Reordered value other ∧ MembersReordered members rest
termination_by structural members => members

end

mutual

/-- No object, at any depth, has two members of the same name. -/
def DistinctNames : Json → Prop
  | .array items => ItemsDistinctNames items
  | .object members => (members.map Prod.fst).Nodup ∧ MembersDistinctNames members
  | _ => True
termination_by structural value => value

/-- The same of all items of an array. -/
def ItemsDistinctNames : List Json → Prop
  | [] => True
  | item :: items => DistinctNames item ∧ ItemsDistinctNames items
termination_by structural items => items

/-- The same of the values of all members. -/
def MembersDistinctNames : List (String × Json) → Prop
  | [] => True
  | (_, value) :: members => DistinctNames value ∧ MembersDistinctNames members
termination_by structural members => members

end

theorem itemsReordered_iff {items others : List Json} :
    ItemsReordered items others ↔ List.Forall₂ Reordered items others := by
  induction items generalizing others with
  | nil => rw [ItemsReordered, List.forall₂_nil_left_iff]
  | cons item items ih =>
    rw [ItemsReordered, List.forall₂_cons_left_iff]
    constructor
    · rintro ⟨other, rest, rfl, hitem, hitems⟩
      exact ⟨other, rest, hitem, ih.1 hitems, rfl⟩
    · rintro ⟨other, rest, hitem, hitems, rfl⟩
      exact ⟨other, rest, rfl, hitem, ih.2 hitems⟩

theorem membersReordered_iff {members others : Members} :
    MembersReordered members others ↔
      List.Forall₂ (fun m n ↦ n.1 = m.1 ∧ Reordered m.2 n.2) members others := by
  induction members generalizing others with
  | nil => rw [MembersReordered, List.forall₂_nil_left_iff]
  | cons member members ih =>
    obtain ⟨name, value⟩ := member
    rw [MembersReordered, List.forall₂_cons_left_iff]
    constructor
    · rintro ⟨other, rest, rfl, hvalue, hmembers⟩
      exact ⟨(name, other), rest, ⟨rfl, hvalue⟩, ih.1 hmembers, rfl⟩
    · rintro ⟨⟨own, other⟩, rest, ⟨rfl, hvalue⟩, hmembers, rfl⟩
      exact ⟨other, rest, rfl, hvalue, ih.2 hmembers⟩

theorem itemsDistinctNames_iff {items : List Json} :
    ItemsDistinctNames items ↔ ∀ item ∈ items, item.DistinctNames := by
  induction items with
  | nil => simp [ItemsDistinctNames]
  | cons item items ih => rw [ItemsDistinctNames, ih, List.forall_mem_cons]

theorem membersDistinctNames_iff {members : Members} :
    MembersDistinctNames members ↔ ∀ member ∈ members, member.2.DistinctNames := by
  induction members with
  | nil => simp [MembersDistinctNames]
  | cons member members ih => rw [MembersDistinctNames, ih, List.forall_mem_cons]

/-! ### Depth -/

mutual

theorem Reordered.depth_eq : {v w : Json} → v.Reordered w → v.depth = w.depth
  | .array _, _, ⟨_, rfl, h⟩ => congrArg (· + 1) (ItemsReordered.itemsDepth_eq h)
  | .object _, _, ⟨_, _, rfl, h, hperm⟩ =>
    congrArg (· + 1) ((MembersReordered.membersDepth_eq h).trans
      (le_antisymm (membersDepth_mono hperm.subset) (membersDepth_mono hperm.symm.subset)))
  | .null, _, rfl => rfl
  | .bool _, _, rfl => rfl
  | .integer _, _, rfl => rfl
  | .float _, _, rfl => rfl
  | .string _, _, rfl => rfl

theorem ItemsReordered.itemsDepth_eq : {items others : List Json} →
    ItemsReordered items others → itemsDepth items = itemsDepth others
  | [], _, rfl => rfl
  | _ :: _, _, ⟨_, _, rfl, hitem, hitems⟩ =>
    congrArg₂ max (Reordered.depth_eq hitem) (ItemsReordered.itemsDepth_eq hitems)

theorem MembersReordered.membersDepth_eq : {members others : List (String × Json)} →
    MembersReordered members others → membersDepth members = membersDepth others
  | [], _, rfl => rfl
  | _ :: _, _, ⟨_, _, rfl, hvalue, hmembers⟩ =>
    congrArg₂ max (Reordered.depth_eq hvalue) (MembersReordered.membersDepth_eq hmembers)

end

end Json

namespace Members

/-- Members of different names, with values whose names are distinct, and the same members in
another order, with members of their values in another order. -/
structure Reordered (members others : Members) : Prop where
  /-- Each member has a partner of the same name. -/
  matched : Matched (fun m n ↦ n.1 = m.1 ∧ m.2.Reordered n.2) members others
  /-- No name is repeated. -/
  nodup : members.names.Nodup
  /-- Nor is one inside the values. -/
  distinct : ∀ member ∈ members, member.2.DistinctNames

variable {members others : Members} {name : String}

namespace Reordered

variable (h : members.Reordered others)

include h

theorem names_perm : members.names.Perm others.names :=
  (h.matched.map fun _ _ hmn ↦ hmn.1.symm).perm

/-- Under every name stands a value and its reordering, or nothing. -/
theorem lookup_rel (name : String) :
    Option.Rel (fun v w ↦ v.DistinctNames ∧ v.Reordered w) (members.lookup name)
      (others.lookup name) := by
  have hnodup := h.names_perm.nodup_iff.1 h.nodup
  have hnames : (members.lookup name).isSome = true ↔ (others.lookup name).isSome = true := by
    rw [lookup_isSome_iff, lookup_isSome_iff, h.names_perm.mem_iff]
  cases hlookup : members.lookup name with
  | none =>
    rw [hlookup] at hnames
    rw [Option.not_isSome_iff_eq_none.1 (hnames.not.1 (by simp))]
    exact .none
  | some value =>
    have hmem := mem_of_lookup hlookup
    obtain ⟨⟨own, other⟩, hother, rfl, hvalue⟩ := h.matched.exists_of_mem hmem
    rw [lookup_of_mem hnodup hother]
    exact .some ⟨h.distinct _ hmem, hvalue⟩

theorem without (name : String) : (members.without name).Reordered (others.without name) where
  matched := h.matched.filter fun m n hmn ↦ by rw [hmn.1]
  nodup := h.nodup.sublist (List.filter_sublist.map Prod.fst)
  distinct member hmember := h.distinct member (List.mem_filter.1 hmember).1

end Reordered

end Members

end JsonPattern
