import JsonPattern.Json.Basic
import Mathlib.Data.List.Basic
import Mathlib.Order.Lattice

/-!
# Members of an object

Looking up a name, passing over the members of several names, and the depth of the parts of a value.
-/

namespace JsonPattern

namespace Members

variable {members : Members} {name : String} {value : Json} {names names' : List String}

theorem mem_of_lookup (h : members.lookup name = some value) : (name, value) ∈ members := by
  induction members with
  | nil => cases h
  | cons member members ih =>
    obtain ⟨own, part⟩ := member
    rw [List.lookup_cons] at h
    split at h
    · next heq =>
      rw [eq_of_beq heq, Option.some.inj h]
      exact List.mem_cons_self
    · exact List.mem_cons_of_mem _ (ih h)

theorem mem_names_of_mem (h : (name, value) ∈ members) : name ∈ members.names :=
  List.mem_map_of_mem (f := Prod.fst) h

theorem lookup_of_mem (hnodup : members.names.Nodup) (h : (name, value) ∈ members) :
    members.lookup name = some value := by
  induction members with
  | nil => cases h
  | cons member members ih =>
    obtain ⟨own, part⟩ := member
    obtain ⟨hown, hnodup⟩ := List.nodup_cons.1 hnodup
    rw [List.lookup_cons]
    rcases List.mem_cons.1 h with he | h
    · cases he
      rw [BEq.rfl]
    · have hne : name ≠ own := fun he ↦ hown (he ▸ mem_names_of_mem h)
      rw [beq_false_of_ne hne]
      exact ih hnodup h

theorem lookup_isSome_iff : (members.lookup name).isSome = true ↔ name ∈ members.names := by
  induction members with
  | nil => simp [Members.names]
  | cons member members ih =>
    obtain ⟨own, part⟩ := member
    rw [List.lookup_cons, Members.names, List.map_cons, List.mem_cons]
    by_cases he : name = own
    · simp [he]
    · rw [beq_false_of_ne he]
      exact ih.trans (or_iff_right he).symm

/-- The members with none of several names. -/
def outside (members : Members) (names : List String) : Members :=
  members.filter fun member ↦ decide (member.1 ∉ names)

theorem outside_nil : members.outside [] = members := by simp [outside]

theorem without_eq_outside : members.without name = members.outside [name] :=
  List.filter_congr fun member _ ↦ by simp [bne, beq_eq_decide]

theorem outside_outside : (members.outside names).outside names' =
    members.outside (names ++ names') := by
  rw [outside, outside, outside, List.filter_filter]
  exact List.filter_congr fun member _ ↦ by simp [Bool.and_comm]

theorem mem_names_outside :
    name ∈ (members.outside names).names ↔ name ∈ members.names ∧ name ∉ names := by
  simp only [outside, Members.names, List.mem_map, List.mem_filter, decide_eq_true_eq]
  constructor
  · rintro ⟨member, ⟨hmember, hname⟩, rfl⟩
    exact ⟨⟨member, hmember, rfl⟩, hname⟩
  · rintro ⟨⟨member, hmember, rfl⟩, hname⟩
    exact ⟨member, ⟨hmember, hname⟩, rfl⟩

theorem lookup_outside (hname : name ∉ names) :
    (members.outside names).lookup name = members.lookup name := by
  induction members with
  | nil => rfl
  | cons member members ih =>
    obtain ⟨own, part⟩ := member
    rw [outside, List.filter_cons, List.lookup_cons]
    by_cases he : name = own
    · subst he
      rw [if_pos (decide_eq_true hname), List.lookup_cons, BEq.rfl]
    · rw [beq_false_of_ne he]
      split
      · rw [List.lookup_cons, beq_false_of_ne he]
        exact ih
      · exact ih

theorem lookup_of_lookup_outside {part : Json}
    (h : (members.outside names).lookup name = some part) : members.lookup name = some part := by
  have hmem : name ∈ (members.outside names).names := lookup_isSome_iff.1 (by rw [h]; rfl)
  rwa [lookup_outside (mem_names_outside.1 hmem).2] at h

theorem outside_eq_nil_iff : members.outside names = [] ↔ members.names ⊆ names := by
  simp [outside, Members.names, List.filter_eq_nil_iff, List.subset_def]

end Members

/-! ### Depth of parts -/

theorem Json.depth_le_itemsDepth {item : Json} {items : List Json} (h : item ∈ items) :
    item.depth ≤ itemsDepth items := by
  induction items with
  | nil => exact absurd h List.not_mem_nil
  | cons other items ih =>
    rw [itemsDepth]
    rcases List.mem_cons.1 h with rfl | h
    · exact le_max_left ..
    · exact (ih h).trans (le_max_right ..)

theorem Json.depth_le_membersDepth {member : String × Json} {members : Members}
    (h : member ∈ members) : member.2.depth ≤ membersDepth members := by
  induction members with
  | nil => exact absurd h List.not_mem_nil
  | cons other members ih =>
    rw [membersDepth]
    rcases List.mem_cons.1 h with rfl | h
    · exact le_max_left ..
    · exact (ih h).trans (le_max_right ..)

theorem Json.membersDepth_mono {members others : Members} (h : members ⊆ others) :
    membersDepth members ≤ membersDepth others := by
  induction members with
  | nil => exact Nat.zero_le _
  | cons member members ih =>
    rw [membersDepth]
    obtain ⟨hmember, hmembers⟩ := List.cons_subset.1 h
    exact max_le (depth_le_membersDepth hmember) (ih hmembers)

end JsonPattern
