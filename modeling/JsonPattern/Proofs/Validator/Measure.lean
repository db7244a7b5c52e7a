import JsonPattern.Proofs.Validator.Choice
import JsonPattern.Validator.Calls
import Mathlib.Algebra.Order.BigOperators.Group.List
import Mathlib.Algebra.Order.Group.Nat
import Mathlib.Algebra.Ring.Nat
import Mathlib.Data.Prod.Lex

/-!
# The measure of a call

The measure of a call combines the depth of the value that is looked at, the rank of the checks that
are looked at, and the size of the clauses. Calls that look at no value have depth zero. One depth
more is given to calls that look at the members of an object, since they ask for the parts.

`Call.Below` is what holds of the calls that a function makes: the measure decreases, in
lexicographic order, and clauses grow no larger than those of the checks.

## Main definitions

* `Clause.size`, `Part.size`, `Call.size` : sizes of clauses.
* `height` : a bound of the ranks of several references.
* `Expands` : what a part is unfolded to.
* `Call.measure`, `Call.index` : depth, rank and size of a call, in lexicographic order and as a
  number.
* `Call.Below` : the measure is smaller, and the clauses are no larger or of bounded size.

## Main results

* `Table.expands` : the unfolding of a part is one of those listed.
* `Part.smaller_of_sequence`, `Part.smaller_of_alternatives` : what a part is unfolded to is
  smaller.
* `Call.index_lt_index` : a smaller measure is a smaller index.
-/

namespace JsonPattern

variable {ρ : Type}

/-! ### Sizes of clauses -/

mutual

/-- The number of clauses and lists of clauses in a clause. -/
def Clause.size : Clause ρ → Nat
  | .named _ _ => 1
  | .optional group => groupSize group + 1
  | .many _ => 1
  | .flatten _ => 1
  | .oneOf groups => groupsSize groups + 2
termination_by structural clause => clause

/-- The number of clauses and lists of clauses in a list of clauses. -/
def groupSize : List (Clause ρ) → Nat
  | [] => 1
  | clause :: group => clause.size + groupSize group
termination_by structural group => group

/-- The number of clauses and lists of clauses in a list of groups. -/
def groupsSize : List (List (Clause ρ)) → Nat
  | [] => 0
  | group :: groups => groupSize group + groupsSize groups
termination_by structural groups => groups

end

theorem size_lt_groupSize {clause : Clause ρ} {group : List (Clause ρ)} (h : clause ∈ group) :
    clause.size < groupSize group := by
  have hpos (group : List (Clause ρ)) : 0 < groupSize group := by
    induction group with
    | nil => exact Nat.one_pos
    | cons clause group ih => rw [groupSize]; omega
  induction group with
  | nil => exact absurd h List.not_mem_nil
  | cons other group ih =>
    rw [groupSize]
    rcases List.mem_cons.1 h with rfl | h
    · have := hpos group
      omega
    · have := ih h
      omega

/-- The size of a view. A check that is only referred to has none. -/
def View.size : View ρ → Nat
  | .group clauses => groupSize clauses
  | .ref _ => 0

theorem groupsSize_eq_sum (groups : List (List (Clause ρ))) :
    groupsSize groups = ((groups.map View.group).map View.size).sum := by
  induction groups with
  | nil => rfl
  | cons group groups ih => rw [groupsSize, ih]; rfl

theorem sum_size_map_ref (rs : List ρ) : ((rs.map View.ref).map View.size).sum = 0 := by
  induction rs with
  | nil => rfl
  | cons r rs ih => rw [List.map_cons, List.map_cons, List.sum_cons, ih]; rfl

theorem flatMap_flattenTargets_map_ref (rs : List ρ) :
    (rs.map View.ref).flatMap View.flattenTargets = rs := by
  induction rs with
  | nil => rfl
  | cons r rs ih => rw [List.map_cons, List.flatMap_cons, ih]; rfl

/-- The size of the clauses of a check. -/
def Check.size : Check ρ → Nat
  | .object clauses => groupSize clauses
  | _ => 0

/-- The references by which a part takes members of other checks. -/
def Part.flattenTargets : Part ρ → List ρ
  | .clause c => c.flattenTargets
  | .view v => v.flattenTargets

/-- The size of a part. -/
def Part.size : Part ρ → Nat
  | .clause c => c.size
  | .view v => v.size

/-! ### Heights -/

/-- A bound of the ranks of several references. -/
def height (rank : ρ → Nat) (rs : List ρ) : Nat := (rs.map fun r ↦ rank r + 1).foldr max 0

theorem height_le_iff {rank : ρ → Nat} {rs : List ρ} {n : Nat} :
    height rank rs ≤ n ↔ ∀ r ∈ rs, rank r < n := by
  induction rs with
  | nil => simp [height]
  | cons r rs ih =>
    have hcons : height rank (r :: rs) = max (rank r + 1) (height rank rs) := rfl
    rw [hcons, Nat.max_le, ih, List.forall_mem_cons]
    exact Iff.rfl

theorem lt_height {rank : ρ → Nat} {rs : List ρ} {r : ρ} (h : r ∈ rs) :
    rank r < height rank rs :=
  height_le_iff.1 le_rfl r h

theorem height_mono {rank : ρ → Nat} {rs ss : List ρ} (h : rs ⊆ ss) :
    height rank rs ≤ height rank ss :=
  height_le_iff.2 fun _ hr ↦ lt_height (h hr)

/-! ### Unfolded parts -/

/-- A part refers to checks of no greater rank than another, with smaller rank or with smaller
clauses, and its clauses are no larger, or of bounded size. -/
structure Part.Smaller (rank : ρ → Nat) (bound : Nat) (part part' : Part ρ) : Prop where
  /-- The rank is no greater. -/
  height_le : height rank part.flattenTargets ≤ height rank part'.flattenTargets
  /-- The rank or the size is smaller. -/
  lt : height rank part.flattenTargets < height rank part'.flattenTargets ∨ part.size < part'.size
  /-- The clauses are no larger, or of bounded size. -/
  size_le : part.size ≤ max bound part'.size

/-- A part refers to a check that is seen as taking members. -/
def Part.IsRef (part : Part ρ) (t : ρ) : Prop :=
  part = .clause (.flatten t) ∨ part = .view (.ref t)

theorem Part.IsRef.flattenTargets_eq {part : Part ρ} {t : ρ} (h : part.IsRef t) :
    part.flattenTargets = [t] := by
  rcases h with rfl | rfl <;> rfl

/-- What a part is unfolded to. -/
inductive Expands (T : Table ρ) : Part ρ → Expanded ρ → Prop
  | named (name : String) (value : ρ) :
      Expands T (.clause (.named name value)) (.leaf (.named name value))
  | optional (group : List (Clause ρ)) :
      Expands T (.clause (.optional group)) (.leaf (.optional group))
  | many (value : ρ) : Expands T (.clause (.many value)) (.leaf (.many value))
  | group (clauses : List (Clause ρ)) : Expands T (.view (.group clauses)) (.sequence clauses)
  | oneOf (groups : List (List (Clause ρ))) :
      Expands T (.clause (.oneOf groups)) (.alternatives (groups.map .group))
  | object {part : Part ρ} {t : ρ} {clauses : List (Clause ρ)} (hpart : part.IsRef t)
      (hcheck : T.check t = .object clauses) : Expands T part (.sequence clauses)
  | alternatives {part : Part ρ} {t : ρ} {alternatives : List ρ} (hpart : part.IsRef t)
      (hcheck : T.check t = .oneOf alternatives) :
      Expands T part (.alternatives (alternatives.map .ref))
  | nothing {part : Part ρ} {t : ρ} (hpart : part.IsRef t)
      (hobject : ∀ clauses, T.check t ≠ .object clauses)
      (honeOf : ∀ alternatives, T.check t ≠ .oneOf alternatives) : Expands T part .nothing

theorem Table.expands (T : Table ρ) (part : Part ρ) : Expands T part (T.expand part) := by
  have href {part : Part ρ} {t : ρ} (hpart : part.IsRef t) : Expands T part (T.expandRef t) := by
    rw [Table.expandRef]
    cases hcheck : T.check t with
    | object clauses => exact .object hpart hcheck
    | oneOf alternatives => exact .alternatives hpart hcheck
    | kind | literal | regex | arrayOf | anything =>
      exact .nothing hpart (by simp [hcheck]) (by simp [hcheck])
  cases part with
  | clause clause =>
    cases clause with
    | named name value => exact .named name value
    | optional group => exact .optional group
    | many value => exact .many value
    | flatten t => exact href (.inl rfl)
    | oneOf groups => exact .oneOf groups
  | view view =>
    cases view with
    | group clauses => exact .group clauses
    | ref t => exact href (.inr rfl)

section Expand

variable {T : Table ρ} {rank : ρ → Nat} {bound : Nat} {part : Part ρ}

theorem height_singleton (t : ρ) : height rank [t] = rank t + 1 := Nat.max_zero _

variable (h : T.Ranked Set.univ rank) (hsize : ∀ r, (T.check r).size + 2 ≤ bound)

include h hsize

/-- The clauses that a part is unfolded to are smaller. -/
theorem Part.smaller_of_sequence {clauses : List (Clause ρ)} {clause : Clause ρ}
    (hexpands : Expands T part (.sequence clauses)) (hclause : clause ∈ clauses) :
    Part.Smaller rank bound (.clause clause) part := by
  have hsub : clause.flattenTargets ⊆ groupFlattenTargets clauses :=
    Clause.flattenTargets_subset_of_mem hclause
  have hlt := size_lt_groupSize hclause
  cases hexpands with
  | group => exact ⟨height_mono hsub, .inr hlt, hlt.le.trans (le_max_right ..)⟩
  | @object _ t _ hpart hcheck =>
    have hheight : height rank clause.flattenTargets ≤ rank t := height_le_iff.2 fun s hs ↦
      (h.target_of_object (Set.mem_univ t) hcheck s (hsub hs)).2
    have hbound := hsize t
    rw [hcheck, Check.size] at hbound
    have hpart : height rank part.flattenTargets = rank t + 1 := by
      rw [hpart.flattenTargets_eq, height_singleton]
    refine ⟨?_, .inl ?_, le_trans ?_ (le_max_left ..)⟩
    · exact hpart ▸ Nat.le_succ_of_le hheight
    · exact hpart ▸ Nat.lt_succ_of_le hheight
    · exact hlt.le.trans (by omega)

omit hsize in
/-- The alternatives of a disjunction are together no higher than the disjunction. -/
theorem Table.Ranked.height_alternatives_le {r : ρ} {alternatives : List ρ}
    (hcheck : T.check r = .oneOf alternatives) : height rank alternatives ≤ rank r :=
  height_le_iff.2 fun _ ha ↦ (h.mem_of_oneOf (Set.mem_univ r) hcheck ha).2

/-- The alternatives that a part is unfolded to are smaller together. -/
theorem Part.smaller_of_alternatives {views : List (View ρ)}
    (hexpands : Expands T part (.alternatives views)) :
    height rank (views.flatMap View.flattenTargets) ≤ height rank part.flattenTargets ∧
      (height rank (views.flatMap View.flattenTargets) < height rank part.flattenTargets ∨
        (views.map View.size).sum + 1 < part.size) ∧
      (views.map View.size).sum + 1 ≤ max bound part.size := by
  cases hexpands with
  | oneOf groups =>
    have hsum : ((groups.map View.group).map View.size).sum + 1 <
        (Part.clause (.oneOf groups)).size := by
      rw [← groupsSize_eq_sum, Part.size, Clause.size]
      omega
    refine ⟨height_mono ?_, .inr hsum, hsum.le.trans (le_max_right ..)⟩
    intro s hs
    obtain ⟨view, hview, hs⟩ := List.mem_flatMap.1 hs
    obtain ⟨group, hgroup, rfl⟩ := List.mem_map.1 hview
    exact groupFlattenTargets_subset_of_mem hgroup hs
  | @alternatives _ t alternatives hpart hcheck =>
    have hheight : height rank alternatives ≤ rank t := h.height_alternatives_le hcheck
    have hbound := hsize t
    rw [hpart.flattenTargets_eq, height_singleton, sum_size_map_ref,
      flatMap_flattenTargets_map_ref]
    exact ⟨Nat.le_succ_of_le hheight, .inl (Nat.lt_succ_of_le hheight),
      le_trans (by omega) (le_max_left ..)⟩

theorem Part.smaller_of_mem_alternatives {views : List (View ρ)} {view : View ρ}
    (hexpands : Expands T part (.alternatives views)) (hview : view ∈ views) :
    Part.Smaller rank bound (.view view) part := by
  obtain ⟨hle, hlt, hsize⟩ := Part.smaller_of_alternatives h hsize hexpands
  have hheight : height rank view.flattenTargets ≤
      height rank (views.flatMap View.flattenTargets) :=
    height_mono fun s hs ↦ List.mem_flatMap.2 ⟨view, hview, hs⟩
  have hsum : view.size ≤ (views.map View.size).sum :=
    List.le_sum_of_mem (List.mem_map_of_mem hview)
  refine ⟨hheight.trans hle, ?_, (hsum.trans (Nat.le_succ _)).trans hsize⟩
  rcases hlt with hlt | hlt
  · exact .inl (hheight.trans_lt hlt)
  · exact .inr ((hsum.trans (Nat.le_succ _)).trans_lt hlt)

omit h hsize in
/-- The clauses of an optional group are smaller than the group. -/
theorem Part.smaller_of_optional (group : List (Clause ρ)) :
    Part.Smaller rank bound (.view (.group group)) (.clause (.optional group)) :=
  ⟨le_rfl, .inr (Nat.lt_succ_self _), (Nat.le_succ _).trans (le_max_right ..)⟩

end Expand

/-! ### Calls -/

namespace Call

/-- The depth of the value that is looked at. -/
def depth : Call ρ → Nat
  | .check _ _ value => value.depth
  | .fits _ value => value.depth
  | .branches _ value => value.depth
  | .opens _ _ value => value.depth + 1
  | .take _ _ members => Json.membersDepth members + 1
  | .dispatch _ _ members => Json.membersDepth members + 1
  | .describe _ | .describeAll _ | .firstNames _ | .firstChecks _ _ => 0

/-- The rank of the checks that are looked at. -/
def rankBy (rank : ρ → Nat) : Call ρ → Nat
  | .check r _ _ => rank r
  | .fits r _ => rank r
  | .branches r _ => rank r
  | .describe r => rank r
  | .describeAll rs => height rank rs
  | .firstNames part => height rank part.flattenTargets
  | .firstChecks part _ => height rank part.flattenTargets
  | .opens part _ _ => height rank part.flattenTargets
  | .take part _ _ => height rank part.flattenTargets
  | .dispatch views _ _ => height rank (views.flatMap View.flattenTargets)

/-- The size of the clauses that are looked at. -/
def size (T : Table ρ) : Call ρ → Nat
  | .check r _ _ => (T.check r).size + 2
  | .fits _ _ => 1
  | .branches _ _ => 0
  | .describe _ => 1
  | .describeAll _ => 0
  | .firstNames part => part.size
  | .firstChecks part _ => part.size
  | .opens part _ _ => part.size
  | .take part _ _ => part.size
  | .dispatch views _ _ => (views.map View.size).sum + 1

theorem rankBy_le {rank : ρ → Nat} {top : Nat} (hrank : ∀ r, rank r < top) (call : Call ρ) :
    call.rankBy rank ≤ top := by
  have hheight (rs : List ρ) : height rank rs ≤ top := height_le_iff.2 fun r _ ↦ hrank r
  cases call with
  | check r | fits r | branches r | describe r => exact (hrank r).le
  | describeAll | firstNames | firstChecks | opens | take | dispatch => exact hheight _

/-- Depth, rank and size of a call, in lexicographic order. -/
def measure (T : Table ρ) (rank : ρ → Nat) (call : Call ρ) : Nat ×ₗ Nat ×ₗ Nat :=
  toLex (call.depth, toLex (call.rankBy rank, call.size T))

theorem measure_lt_iff {T : Table ρ} {rank : ρ → Nat} {call call' : Call ρ} :
    call.measure T rank < call'.measure T rank ↔ call.depth < call'.depth ∨
      call.depth = call'.depth ∧ (call.rankBy rank < call'.rankBy rank ∨
        call.rankBy rank = call'.rankBy rank ∧ call.size T < call'.size T) := by
  rw [measure, measure, Prod.Lex.toLex_lt_toLex, Prod.Lex.toLex_lt_toLex]

/-- The measure of a call is smaller than that of another, and its clauses are no larger, or of
bounded size. -/
structure Below (T : Table ρ) (rank : ρ → Nat) (bound : Nat) (call call' : Call ρ) : Prop where
  /-- The measure is smaller. -/
  measure_lt : call.measure T rank < call'.measure T rank
  /-- The clauses are no larger, or of bounded size. -/
  size_le : call.size T ≤ max bound (call'.size T)

variable {T : Table ρ} {rank : ρ → Nat} {bound : Nat} {call call' : Call ρ}

theorem Below.of_depth_lt (hsize : call.size T ≤ max bound (call'.size T))
    (hdepth : call.depth < call'.depth) : Below T rank bound call call' :=
  ⟨measure_lt_iff.2 (.inl hdepth), hsize⟩

theorem Below.of_le (hsize : call.size T ≤ max bound (call'.size T))
    (hdepth : call.depth ≤ call'.depth) (hrank : call.rankBy rank ≤ call'.rankBy rank)
    (hlt : call.rankBy rank < call'.rankBy rank ∨ call.size T < call'.size T) :
    Below T rank bound call call' := by
  refine ⟨measure_lt_iff.2 ?_, hsize⟩
  omega

/-- The measure as a single number, for ranks up to `top` and sizes up to `bound`. -/
def index (T : Table ρ) (rank : ρ → Nat) (top bound : Nat) (call : Call ρ) : Nat :=
  (call.depth * (top + 1) + call.rankBy rank) * (bound + 1) + call.size T

theorem index_lt {top : Nat} (hrank : call.rankBy rank ≤ top) (hsize : call.size T ≤ bound)
    {depth : Nat} (hdepth : call.depth ≤ depth) :
    call.index T rank top bound < (depth + 1) * (top + 1) * (bound + 1) := by
  have hdepth : call.depth * (top + 1) ≤ depth * (top + 1) :=
    Nat.mul_le_mul_right _ hdepth
  have hfirst : call.depth * (top + 1) + call.rankBy rank + 1 ≤ (depth + 1) * (top + 1) := by
    rw [Nat.succ_mul]
    omega
  calc call.index T rank top bound
      < (call.depth * (top + 1) + call.rankBy rank + 1) * (bound + 1) := by
        rw [index, Nat.succ_mul]
        omega
    _ ≤ (depth + 1) * (top + 1) * (bound + 1) := Nat.mul_le_mul_right _ hfirst

theorem index_lt_index {top : Nat} (h : call.measure T rank < call'.measure T rank)
    (hrank : call.rankBy rank ≤ top) (hsize : call.size T ≤ bound) :
    call.index T rank top bound < call'.index T rank top bound := by
  rcases measure_lt_iff.1 h with hdepth | ⟨hdepth, hrank' | ⟨hrank', hsize'⟩⟩
  · refine (index_lt hrank hsize le_rfl).trans_le ?_
    have hdepth : (call.depth + 1) * (top + 1) ≤ call'.depth * (top + 1) :=
      Nat.mul_le_mul_right _ hdepth
    exact (Nat.mul_le_mul_right _ (hdepth.trans (Nat.le_add_right ..))).trans (Nat.le_add_right ..)
  · have hlt : call.depth * (top + 1) + call.rankBy rank + 1 ≤
        call'.depth * (top + 1) + call'.rankBy rank := by
      rw [hdepth]
      omega
    have hle := Nat.mul_le_mul_right (bound + 1) hlt
    rw [Nat.succ_mul] at hle
    rw [index, index]
    omega
  · rw [index, index, hdepth, hrank']
    omega

end Call

end JsonPattern
