import JsonPattern.Json.Equality
import JsonPattern.Path
import JsonPattern.Proofs.Json.Reordering
import Mathlib.Data.List.Nodup
import Mathlib.Data.List.Perm.Subperm
import Mathlib.Logic.Relation
import Mathlib.Order.Monotone.Basic

/-!
# What structural equality means

`Json.Rearranges` is a single change that a comparison does not see: the members of an object are
put in another order, or a float is replaced by one that stands for the same number, at any depth of
the value. Where no object repeats a name, two values are equal exactly if the one arises from the
other by such changes. Changes can be undone and made one after the other, so equality is symmetric
and transitive, although objects are compared by their lengths and by one inclusion only.

## Main definitions

* `Binary64.units` : the number that a double stands for.
* `Json.Rearranges`, `Json.Rearranged` : one change that a comparison does not see, and several of
  them.

## Main results

* `Binary64.equal_iff` : doubles are equal if they stand for the same number.
* `Json.equal_self` : a value equals itself.
* `Json.Rearranged.equal`, `Json.rearranged_of_equal` : equal values are those that arise by such
  changes.
* `Json.equal_equivalence_up_to_order` : equality is an equivalence, and says this.
-/

namespace JsonPattern

/-! ### Equal numbers -/

theorem wordUnits_lt {w : Nat} : wordUnits w < binadeSize <<< (w / binadeSize) := by
  have hfraction : w % binadeSize < binadeSize := Nat.mod_lt _ (by decide)
  rw [wordUnits]
  split
  · next h => rwa [h]
  · next h =>
    obtain ⟨exponent, he⟩ := Nat.exists_eq_succ_of_ne_zero h
    rw [he, Nat.shiftLeft_eq, Nat.shiftLeft_eq, Nat.succ_sub_one, Nat.pow_succ', ← Nat.mul_assoc]
    exact Nat.mul_lt_mul_of_pos_right (by omega) (Nat.two_pow_pos _)

theorem le_wordUnits {w : Nat} (h : w / binadeSize ≠ 0) :
    binadeSize <<< (w / binadeSize - 1) ≤ wordUnits w := by
  rw [wordUnits, if_neg h, Nat.shiftLeft_eq, Nat.shiftLeft_eq]
  exact Nat.mul_le_mul_right _ (Nat.le_add_right ..)

/-- Words are ordered as the magnitudes that they stand for. -/
theorem strictMono_wordUnits : StrictMono wordUnits := by
  intro v w hvw
  have hle : v / binadeSize ≤ w / binadeSize := Nat.div_le_div_right hvw.le
  rcases hle.lt_or_eq with hlt | heq
  · calc wordUnits v < binadeSize <<< (v / binadeSize) := wordUnits_lt
      _ ≤ binadeSize <<< (w / binadeSize - 1) := by
        rw [Nat.shiftLeft_eq, Nat.shiftLeft_eq]
        exact Nat.mul_le_mul_left _ (Nat.pow_le_pow_right Nat.two_pos (Nat.le_sub_one_of_lt hlt))
      _ ≤ wordUnits w := le_wordUnits (Nat.ne_zero_of_lt hlt)
  · have hfraction : v % binadeSize < w % binadeSize := by
      have hv := Nat.div_add_mod v binadeSize
      have hw := Nat.div_add_mod w binadeSize
      rw [heq] at hv
      omega
    rw [wordUnits, wordUnits, heq]
    split
    · exact hfraction
    · rw [Nat.shiftLeft_eq, Nat.shiftLeft_eq]
      exact Nat.mul_lt_mul_of_pos_right (by omega) (Nat.two_pow_pos _)

namespace Binary64

/-- The number that a double stands for, in units of `2 ^ (-1074)`. -/
def units (x : Binary64) : Int := if x.negative then -wordUnits x.word else wordUnits x.word

/-- Doubles are equal exactly if they stand for the same number. -/
theorem equal_iff {x y : Binary64} : x.equal y = true ↔ x.units = y.units := by
  have hword : x.word = y.word ↔ wordUnits x.word = wordUnits y.word :=
    strictMono_wordUnits.injective.eq_iff.symm
  have hzero : x.word = 0 ↔ wordUnits x.word = 0 :=
    (strictMono_wordUnits.injective.eq_iff' rfl).symm
  simp only [equal, units, Bool.and_eq_true, Bool.or_eq_true, beq_iff_eq, hword, hzero]
  cases x.negative <;> cases y.negative <;> simp <;> omega

end Binary64

namespace Json

/-- An integer as a word of 64 bits with a sign, if it is one. -/
def signedWord? (n : Int) : Option Int :=
  if -(UInt64.size / 2 : Nat) ≤ n ∧ n < (UInt64.size / 2 : Nat) then some n else none

/-- An integer is a word of 64 bits, with or without a sign. -/
def IsWord (n : Int) : Prop := -(UInt64.size / 2 : Nat) ≤ n ∧ n < UInt64.size

/-- Words with and without a sign tell integers of 64 bits apart, although neither do alone. -/
theorem eq_iff_words_eq {m n : Int} (hm : IsWord m) (hn : IsWord n) :
    m = n ↔ signedWord? m = signedWord? n ∧ (integer m).word? = (integer n).word? := by
  refine ⟨fun h ↦ h ▸ ⟨rfl, rfl⟩, ?_⟩
  obtain ⟨hm, hm'⟩ := hm
  obtain ⟨hn, hn'⟩ := hn
  simp only [signedWord?, word?]
  rintro ⟨hsigned, hunsigned⟩
  have hhalf : UInt64.size = 2 * (UInt64.size / 2) := rfl
  generalize UInt64.size / 2 = half at *
  split at hsigned <;> split at hsigned <;> simp at hsigned
  · exact hsigned
  · split at hunsigned <;> split at hunsigned <;> simp at hunsigned <;> omega

/-! ### What is compared -/

theorem equalItems_iff {items others : List Json} :
    equalItems items others = true ↔ List.Forall₂ (fun v w ↦ v.equal w = true) items others := by
  induction items generalizing others with
  | nil => cases others <;> simp [equalItems]
  | cons item items ih => cases others <;> simp [equalItems, ih]

theorem equalMembers_iff {members others : Members} :
    equalMembers members others = true ↔
      ∀ member ∈ members, ∃ value, others.lookup member.1 = some value ∧
        member.2.equal value = true := by
  induction members with
  | nil => simp [equalMembers]
  | cons member members ih =>
    obtain ⟨name, value⟩ := member
    rw [equalMembers, Bool.and_eq_true, ih, List.forall_mem_cons]
    refine and_congr_left' ?_
    cases others.lookup name <;> simp

theorem equal_array_iff {items : List Json} {w : Json} :
    (array items).equal w = true ↔
      ∃ others, w = .array others ∧ List.Forall₂ (fun v w ↦ v.equal w = true) items others := by
  cases w <;> simp [equal, equalItems_iff]

theorem equal_object_iff {members : Members} {w : Json} :
    (object members).equal w = true ↔
      ∃ others, w = .object others ∧ members.length = others.length ∧
        ∀ member ∈ members, ∃ value, others.lookup member.1 = some value ∧
          member.2.equal value = true := by
  cases w <;> simp [equal, equalMembers_iff]

theorem equal_float_iff {x : Binary64} {w : Json} :
    (float x).equal w = true ↔ ∃ y, w = .float y ∧ x.units = y.units := by
  cases w <;> simp [equal, Binary64.equal_iff]

/-- A scalar other than a float equals itself only. -/
theorem eq_of_equal {v w : Json} (hscalar : v.isScalar = true) (hfloat : ∀ x, v ≠ .float x)
    (h : v.equal w = true) : v = w := by
  cases v <;> cases w <;> simp_all [equal, isScalar]

mutual

/-- A value in which no object repeats a name equals itself. -/
theorem equal_self : {v : Json} → v.DistinctNames → v.equal v = true
  | .null, _ => rfl
  | .bool _, _ => beq_self_eq_true _
  | .integer _, _ => beq_self_eq_true _
  | .float _, _ => Binary64.equal_iff.2 rfl
  | .string _, _ => beq_self_eq_true _
  | .array _, h => equal_array_iff.2 ⟨_, rfl, List.forall₂_same.2 (items_equal_self h)⟩
  | .object _, ⟨hnodup, h⟩ => equal_object_iff.2 ⟨_, rfl, rfl, fun member hmember ↦
      ⟨member.2, Members.lookup_of_mem hnodup hmember, members_equal_self h member hmember⟩⟩

theorem items_equal_self : {items : List Json} → ItemsDistinctNames items →
    ∀ item ∈ items, item.equal item = true
  | [], _ => List.forall_mem_nil _
  | _ :: _, ⟨hitem, hitems⟩ => List.forall_mem_cons.2 ⟨equal_self hitem, items_equal_self hitems⟩

theorem members_equal_self : {members : List (String × Json)} → MembersDistinctNames members →
    ∀ member ∈ members, member.2.equal member.2 = true
  | [], _ => List.forall_mem_nil _
  | _ :: _, ⟨hvalue, hmembers⟩ =>
    List.forall_mem_cons.2 ⟨equal_self hvalue, members_equal_self hmembers⟩

end

/-! ### Changes that do not show -/

/-- A value differs from another one by a single change that a comparison does not see. -/
inductive Rearranges : Json → Json → Prop
  /-- The members of an object are permuted. -/
  | permute {members others : Members} (h : members.Perm others) :
      Rearranges (.object members) (.object others)
  /-- A float is replaced by one that stands for the same number. -/
  | replace {x y : Binary64} (h : x.units = y.units) : Rearranges (.float x) (.float y)
  /-- An item of an array is changed. -/
  | item {v w : Json} (before after : List Json) (h : Rearranges v w) :
      Rearranges (.array (before ++ v :: after)) (.array (before ++ w :: after))
  /-- The value of a member of an object is changed. -/
  | member {v w : Json} (before : Members) (name : String) (after : Members)
      (h : Rearranges v w) :
      Rearranges (.object (before ++ (name, v) :: after)) (.object (before ++ (name, w) :: after))

/-- An item of a list may be replaced by one that is related to all that it is related to. -/
theorem forall₂_replace {α β : Type} {R : α → β → Prop} {v w : α} (h : ∀ u, R w u → R v u)
    {before after : List α} {others : List β}
    (hitems : List.Forall₂ R (before ++ w :: after) others) :
    List.Forall₂ R (before ++ v :: after) others := by
  induction before generalizing others with
  | nil =>
    obtain ⟨u, rest, hu, hrest, rfl⟩ := List.forall₂_cons_left_iff.1 hitems
    exact .cons (h u hu) hrest
  | cons item before ih =>
    obtain ⟨u, rest, hu, hrest, rfl⟩ := List.forall₂_cons_left_iff.1 hitems
    exact .cons hu (ih hrest)

namespace Rearranges

/-- A change can be undone. -/
theorem symm {v w : Json} (h : Rearranges v w) : Rearranges w v := by
  induction h with
  | permute h => exact .permute h.symm
  | replace h => exact .replace h.symm
  | item before after _ ih => exact .item before after ih
  | member before name after _ ih => exact .member before name after ih

instance : Std.Symm Rearranges := ⟨fun _ _ ↦ symm⟩

/-- What a changed value equals, the value that was changed equals too. -/
theorem equal_trans {v w u : Json} (h : Rearranges v w) (hequal : w.equal u = true) :
    v.equal u = true := by
  induction h generalizing u with
  | permute h =>
    obtain ⟨others, rfl, hlength, hmembers⟩ := equal_object_iff.1 hequal
    exact equal_object_iff.2 ⟨others, rfl, h.length_eq.trans hlength,
      fun member hmember ↦ hmembers member (h.mem_iff.1 hmember)⟩
  | replace h =>
    obtain ⟨z, rfl, hz⟩ := equal_float_iff.1 hequal
    exact equal_float_iff.2 ⟨z, rfl, h.trans hz⟩
  | item before after _ ih =>
    obtain ⟨others, rfl, hitems⟩ := equal_array_iff.1 hequal
    exact equal_array_iff.2 ⟨others, rfl, forall₂_replace (fun _ ↦ ih) hitems⟩
  | member before name after _ ih =>
    obtain ⟨others, rfl, hlength, hmembers⟩ := equal_object_iff.1 hequal
    refine equal_object_iff.2 ⟨others, rfl, by simpa using hlength, ?_⟩
    simp only [List.forall_mem_append, List.forall_mem_cons] at hmembers ⊢
    obtain ⟨hbefore, ⟨value, hlookup, hvalue⟩, hafter⟩ := hmembers
    exact ⟨hbefore, ⟨value, hlookup, ih hvalue⟩, hafter⟩

end Rearranges

/-- A value arises from another one by changes that a comparison does not see. -/
abbrev Rearranged : Json → Json → Prop := Relation.ReflTransGen Rearranges

namespace Rearranged

/-- Changes may be made inside all items of an array, one after the other. -/
theorem array {items others : List Json} (h : List.Forall₂ Rearranged items others)
    (before : List Json) :
    (Json.array (before ++ items)).Rearranged (.array (before ++ others)) := by
  induction h generalizing before with
  | nil => exact .refl
  | @cons v w items others hitem _ ih =>
    have hfirst := Relation.ReflTransGen.lift (fun item ↦ Json.array (before ++ item :: items))
      (fun _ _ ↦ Rearranges.item before items) v w hitem
    have hrest := ih (before ++ [w])
    rw [List.append_assoc, List.append_assoc] at hrest
    exact hfirst.trans hrest

/-- Changes may be made inside all members of an object, one after the other. -/
theorem object {members others : Members}
    (h : List.Forall₂ (fun m n ↦ n.1 = m.1 ∧ m.2.Rearranged n.2) members others)
    (before : Members) :
    (Json.object (before ++ members)).Rearranged (.object (before ++ others)) := by
  induction h generalizing before with
  | nil => exact .refl
  | @cons member other members others hmember _ ih =>
    obtain ⟨_, v⟩ := member
    obtain ⟨name, w⟩ := other
    obtain ⟨rfl, hvalue⟩ := hmember
    have hfirst := Relation.ReflTransGen.lift
      (fun value ↦ Json.object (before ++ (name, value) :: members))
      (fun _ _ ↦ Rearranges.member before name members) v w hvalue
    have hrest := ih (before ++ [(name, w)])
    rw [List.append_assoc, List.append_assoc] at hrest
    exact hfirst.trans hrest

/-- Changes do not show in a comparison. -/
theorem equal {v w : Json} (h : v.Rearranged w) (hw : w.DistinctNames) : v.equal w = true := by
  induction h using Relation.ReflTransGen.head_induction_on with
  | refl => exact equal_self hw
  | head hstep _ ih => exact hstep.equal_trans ih

end Rearranged

/-! ### What equality comes to -/

mutual

/-- A value arises by changes that do not show from each one that is equal to it. -/
theorem rearranged_of_equal : {v w : Json} → v.DistinctNames → v.equal w = true → v.Rearranged w
  | .array _, _, h, he => by
    obtain ⟨others, rfl, hitems⟩ := equal_array_iff.1 he
    exact .array (items_rearranged_of_equal h hitems) []
  | .object members, _, ⟨hnodup, h⟩, he => by
    obtain ⟨others, rfl, hlength, hmembers⟩ := equal_object_iff.1 he
    obtain ⟨inOrder, hinOrder, hsubset⟩ := members_rearranged_of_equal h hmembers
    have hnames : Members.names members = Members.names inOrder := by
      rw [← List.forall₂_eq_eq_eq]
      exact List.rel_map (fun _ _ h ↦ h.1.symm) hinOrder
    have hpartners : (Members.names inOrder).Nodup := hnames ▸ hnodup
    have hlength' : others.length ≤ inOrder.length := by rw [← hinOrder.length_eq, hlength]
    have hperm : inOrder.Perm others :=
      ((hpartners.of_map Prod.fst).subperm hsubset).perm_of_length_le hlength'
    exact (Rearranged.object hinOrder []).tail (.permute hperm)
  | .float _, _, _, he => by
    obtain ⟨y, rfl, hy⟩ := equal_float_iff.1 he
    exact .single (.replace hy)
  | .null, _, _, he => eq_of_equal rfl (by simp) he ▸ .refl
  | .bool _, _, _, he => eq_of_equal rfl (by simp) he ▸ .refl
  | .integer _, _, _, he => eq_of_equal rfl (by simp) he ▸ .refl
  | .string _, _, _, he => eq_of_equal rfl (by simp) he ▸ .refl

theorem items_rearranged_of_equal : {items others : List Json} → ItemsDistinctNames items →
    List.Forall₂ (fun v w ↦ v.equal w = true) items others → List.Forall₂ Rearranged items others
  | [], [], _, _ => .nil
  | _ :: _, _, ⟨hdistinct, hrest⟩, h => by
    obtain ⟨other, others, hitem, hitems, rfl⟩ := List.forall₂_cons_left_iff.1 h
    exact .cons (rearranged_of_equal hdistinct hitem) (items_rearranged_of_equal hrest hitems)

/-- The partners of the members of an object, in the order of the members. -/
theorem members_rearranged_of_equal : {members : List (String × Json)} → {others : Members} →
    MembersDistinctNames members →
    (∀ member ∈ members, ∃ value, others.lookup member.1 = some value ∧
      member.2.equal value = true) →
    ∃ inOrder : Members,
      List.Forall₂ (fun m n ↦ n.1 = m.1 ∧ m.2.Rearranged n.2) members inOrder ∧ inOrder ⊆ others
  | [], _, _, _ => ⟨[], .nil, List.nil_subset _⟩
  | (name, value) :: _, _, ⟨hdistinct, hrest⟩, h => by
    obtain ⟨⟨partner, hlookup, hvalue⟩, hmembers⟩ := List.forall_mem_cons.1 h
    obtain ⟨inOrder, hinOrder, hsubset⟩ := members_rearranged_of_equal hrest hmembers
    exact ⟨(name, partner) :: inOrder, .cons ⟨rfl, rearranged_of_equal hdistinct hvalue⟩ hinOrder,
      List.cons_subset.2 ⟨Members.mem_of_lookup hlookup, hsubset⟩⟩

end

/-- Among values in which no object repeats a name, structural equality is an equivalence, and two
of them are equal exactly if the one arises from the other by permuting the members of objects and
replacing floats by floats that stand for the same number, at any depth. Integers of 64 bits are
equal exactly if they agree as words with a sign and as words without, which is to say that they are
the same integer, and no integer equals a float. -/
theorem equal_equivalence_up_to_order :
    Equivalence (fun v w : {v : Json // v.DistinctNames} ↦ v.1.equal w.1 = true) ∧
    (∀ v w : Json, v.DistinctNames → w.DistinctNames → (v.equal w = true ↔ v.Rearranged w)) ∧
    (∀ m n : Int, IsWord m → IsWord n →
      ((integer m).equal (integer n) = true ↔ m = n) ∧
      (m = n ↔ signedWord? m = signedWord? n ∧ (integer m).word? = (integer n).word?)) ∧
    ∀ (n : Int) (x : Binary64),
      (integer n).equal (float x) = false ∧ (float x).equal (integer n) = false := by
  refine ⟨⟨fun v ↦ equal_self v.2, ?_, ?_⟩, ?_, ?_, fun n x ↦ ⟨rfl, rfl⟩⟩
  · intro v w h
    exact Rearranged.equal (Std.Symm.symm _ _ (rearranged_of_equal v.2 h)) v.2
  · intro v w u h h'
    exact Rearranged.equal ((rearranged_of_equal v.2 h).trans (rearranged_of_equal w.2 h')) u.2
  · intro v w hv hw
    exact ⟨rearranged_of_equal hv, fun h ↦ h.equal hw⟩
  · intro m n hm hn
    exact ⟨by simp [Json.equal], eq_iff_words_eq hm hn⟩

/-- A point with the greatest number that a label can have. -/
def labelledPoint : Json := .object [("label", .integer 18446744073709551615),
  ("at", .array [.float (.zero false), .object [("x", .integer 1), ("y", .integer 2)]])]

/-- The same with its members in another order, at two depths, and with the other zero. -/
def pointLabelled : Json := .object [
  ("at", .array [.float (.zero true), .object [("y", .integer 2), ("x", .integer 1)]]),
  ("label", .integer 18446744073709551615)]

/-- The two are equal, and so arise from each other. The least word with a sign and the greatest one
without are words, and no other number agrees with them. -/
theorem equal_labelledPoint :
    (labelledPoint.DistinctNames ∧ pointLabelled.DistinctNames ∧
      labelledPoint.equal pointLabelled = true ∧ pointLabelled.equal labelledPoint = true ∧
      labelledPoint.Rearranged pointLabelled) ∧
    IsWord (-9223372036854775808) ∧ IsWord 18446744073709551615 ∧
      ((integer (-9223372036854775808)).equal (integer 18446744073709551615) = true ↔
        (-9223372036854775808 : Int) = 18446744073709551615) := by
  have hdistinct : labelledPoint.DistinctNames := by
    simp [labelledPoint, DistinctNames, MembersDistinctNames, ItemsDistinctNames]
  have hdistinct' : pointLabelled.DistinctNames := by
    simp [pointLabelled, DistinctNames, MembersDistinctNames, ItemsDistinctNames]
  have hequal : labelledPoint.equal pointLabelled = true := by decide
  have hleast : IsWord (-9223372036854775808) := ⟨by decide, by decide⟩
  have hgreatest : IsWord 18446744073709551615 := ⟨by decide, by decide⟩
  obtain ⟨hequivalence, hrearranged, hinteger, -⟩ := equal_equivalence_up_to_order
  have hsymm := @hequivalence.symm ⟨_, hdistinct⟩ ⟨_, hdistinct'⟩ hequal
  exact ⟨⟨hdistinct, hdistinct', hequal, hsymm, (hrearranged _ _ hdistinct hdistinct').1 hequal⟩,
    hleast, hgreatest, (hinteger _ _ hleast hgreatest).1⟩

end Json

end JsonPattern
