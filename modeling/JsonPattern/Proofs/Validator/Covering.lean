import JsonPattern.Proofs.Pattern.Checks
import JsonPattern.Proofs.Validator.Leaves

/-!
# Coverings of tables

What a validator does is defined for any table of checks, and it depends on little else than the
checks. A table is *ranked* on some of its references if a rank below its number of hops decreases
wherever the value is not descended into. It *covers* another table along a function on references
if the function carries its checks to those of the other table and keeps the leaves below every
disjunction apart; looks at a value through the two tables then agree.

The hops that are left of either table do not matter as long as there are more than the rank. So a
table covers itself with any other number of hops above the rank.

## Main definitions

* `Table.Ranked` : a rank decreases wherever the value is not descended into.
* `Table.Covers` : a ranked table covers another one along a function on references.

## Main results

* `Table.Ranked.mem_branches` : the branches of a disjunction have smaller rank.
* `Table.Covers.fits_eq`, `Table.Covers.branches_eq`, `Table.Covers.labels_eq` : shallow looks
  through a covering.
* `Table.Covers.of_injOn` : an injective function that carries checks to checks is a covering.
* `Table.Ranked.covers_hops` : more hops than the rank are as good as any.
-/

namespace JsonPattern

variable {ρ σ : Type}

/-! ### Ranks and coverings -/

/-- The references of a branch. -/
def Branch.refs : Branch ρ → List ρ
  | .single r => [r]
  | .objects rs => rs

/-- Replaces every reference of a branch. -/
def Branch.map (f : ρ → σ) : Branch ρ → Branch σ
  | .single r => .single (f r)
  | .objects rs => .objects (rs.map f)

namespace Table

/-- On some references, a rank decreases wherever the value is not descended into. -/
structure Ranked (T : Table ρ) (nodes : Set ρ) (rank : ρ → Nat) : Prop where
  /-- What is referred to belongs to them. -/
  closed : ∀ r ∈ nodes, ∀ next ∈ (T.check r).refs, next ∈ nodes
  /-- There are more hops than the rank. -/
  lt_hops : ∀ r ∈ nodes, rank r < T.hops
  /-- The rank decreases. -/
  descends : ∀ r ∈ nodes, ∀ next ∈ (T.check r).unguardedRefs, rank next < rank r

/-- A ranked table covers another one along a function on references. -/
structure Covers [DecidableEq ρ] [DecidableEq σ] (T : Table ρ) (U : Table σ) (f : ρ → σ)
    (nodes : Set ρ) (rank : ρ → Nat) : Prop extends T.Ranked nodes rank where
  /-- The other table has more hops than the rank, too. -/
  lt_hops' : ∀ r ∈ nodes, rank r < U.hops
  /-- The function carries checks to checks. -/
  check_eq : ∀ r ∈ nodes, U.check (f r) = (T.check r).map f
  /-- The function keeps apart the leaves of disjunctions. -/
  splice_eq : ∀ r ∈ nodes, ∀ alternatives, T.check r = .oneOf alternatives →
    U.splice (alternatives.map f) = (T.splice alternatives).map f

variable {T : Table ρ} {U : Table σ} {f : ρ → σ} {nodes : Set ρ} {rank : ρ → Nat}

namespace Ranked

theorem mem_of_oneOf (h : T.Ranked nodes rank) {r a : ρ} {alternatives : List ρ} (hr : r ∈ nodes)
    (hcheck : T.check r = .oneOf alternatives) (ha : a ∈ alternatives) :
    a ∈ nodes ∧ rank a < rank r :=
  ⟨h.closed r hr a (by rw [hcheck]; exact ha), h.descends r hr a (by rw [hcheck]; exact ha)⟩

/-- The leaves below a check have no greater rank. -/
theorem mem_leavesWithin (h : T.Ranked nodes rank) {hops : Nat} {r leaf : ρ} (hr : r ∈ nodes)
    (hleaf : leaf ∈ T.leavesWithin hops r) : leaf ∈ nodes ∧ rank leaf ≤ rank r := by
  induction hops generalizing r with
  | zero => exact (List.mem_singleton.1 hleaf).symm ▸ ⟨hr, le_rfl⟩
  | succ hops ih =>
    rw [leavesWithin] at hleaf
    split at hleaf
    · next alternatives hcheck =>
      obtain ⟨a, ha, hleaf⟩ := List.mem_flatMap.1 hleaf
      obtain ⟨ha, hlt⟩ := h.mem_of_oneOf hr hcheck ha
      exact (ih ha hleaf).imp_right hlt.le.trans'
    · exact (List.mem_singleton.1 hleaf).symm ▸ ⟨hr, le_rfl⟩

/-- The leaves below several checks are below one of them. -/
theorem mem_leaves (h : T.Ranked nodes rank) {rs : List ρ} {leaf : ρ} (hrs : ∀ r ∈ rs, r ∈ nodes)
    (hleaf : leaf ∈ T.leaves rs) : leaf ∈ nodes ∧ ∃ r ∈ rs, rank leaf ≤ rank r := by
  obtain ⟨r, hr, hleaf⟩ := List.mem_flatMap.1 hleaf
  obtain ⟨hleaf, hle⟩ := h.mem_leavesWithin (hrs r hr) hleaf
  exact ⟨hleaf, r, hr, hle⟩

theorem mem_splice [DecidableEq ρ] (h : T.Ranked nodes rank) {rs : List ρ} {s : ρ}
    (hrs : ∀ r ∈ rs, r ∈ nodes) (hs : s ∈ T.splice rs) :
    s ∈ nodes ∧ ∃ r ∈ rs, rank s ≤ rank r :=
  h.mem_leaves hrs (mem_splice_iff_mem_leaves.1 hs)

end Ranked

/-- The references of the branches among leaves are leaves. -/
theorem refs_subset_of_mem_groupBranches {fits : ρ → Bool} {leaves : List ρ} {branch : Branch ρ}
    (hbranch : branch ∈ T.groupBranches fits leaves) : branch.refs ⊆ leaves := by
  have hsingles {rs : List ρ} (hrs : rs ⊆ leaves)
      (h : branch ∈ (rs.filter fun r ↦ !T.isObject r && fits r).map Branch.single) :
      branch.refs ⊆ leaves := by
    obtain ⟨r, hr, rfl⟩ := List.mem_map.1 h
    exact List.cons_subset.2 ⟨hrs (List.mem_filter.1 hr).1, List.nil_subset _⟩
  have hbefore : (leaves.takeWhile fun r ↦ !T.isObject r) ⊆ leaves :=
    (List.takeWhile_sublist _).subset
  have hafter : (leaves.dropWhile fun r ↦ !T.isObject r) ⊆ leaves :=
    (List.dropWhile_sublist _).subset
  have hobjects : leaves.filter T.isObject ⊆ leaves := List.filter_sublist.subset
  unfold groupBranches at hbranch
  split at hbranch
  · exact hsingles (List.Subset.refl _) hbranch
  · next only honly =>
    rcases List.mem_append.1 hbranch with hbranch | hbranch
    · exact hsingles hbefore hbranch
    · rcases List.mem_cons.1 hbranch with rfl | hbranch
      · rwa [honly] at hobjects
      · exact hsingles hafter hbranch
  · rcases List.mem_append.1 hbranch with hbranch | hbranch
    · exact hsingles hbefore hbranch
    · rcases List.mem_cons.1 hbranch with rfl | hbranch
      · exact hobjects
      · exact hsingles hafter hbranch

section Lists

variable {p : σ → Bool} {q : ρ → Bool} {rs : List ρ}

private theorem filter_map_eq (h : ∀ r ∈ rs, p (f r) = q r) :
    (rs.map f).filter p = (rs.filter q).map f := by
  rw [List.filter_map]
  exact congrArg (List.map f) (List.filter_congr h)

private theorem takeWhile_map_eq (h : ∀ r ∈ rs, p (f r) = q r) :
    (rs.map f).takeWhile p = (rs.takeWhile q).map f := by
  induction rs with
  | nil => rfl
  | cons r rs ih =>
    have ih := ih fun s hs ↦ h s (List.mem_cons_of_mem r hs)
    simp only [List.map_cons, List.takeWhile_cons, h r List.mem_cons_self, ih]
    cases q r <;> rfl

private theorem dropWhile_map_eq (h : ∀ r ∈ rs, p (f r) = q r) :
    (rs.map f).dropWhile p = (rs.dropWhile q).map f := by
  induction rs with
  | nil => rfl
  | cons r rs ih =>
    have ih := ih fun s hs ↦ h s (List.mem_cons_of_mem r hs)
    simp only [List.map_cons, List.dropWhile_cons, h r List.mem_cons_self, ih]
    cases q r <;> rfl

end Lists

theorem groupBranches_map {p : ρ → Bool} {q : σ → Bool} {leaves : List ρ}
    (hobject : ∀ r ∈ leaves, U.isObject (f r) = T.isObject r)
    (hpq : ∀ r ∈ leaves, q (f r) = p r) :
    U.groupBranches q (leaves.map f) = (T.groupBranches p leaves).map (Branch.map f) := by
  have hsingles {rs : List ρ} (hrs : rs ⊆ leaves) :
      ((rs.map f).filter fun r ↦ !U.isObject r && q r).map Branch.single =
        ((rs.filter fun r ↦ !T.isObject r && p r).map Branch.single).map (Branch.map f) := by
    rw [filter_map_eq (q := fun r ↦ !T.isObject r && p r)
      fun r hr ↦ by rw [hobject r (hrs hr), hpq r (hrs hr)]]
    simp only [List.map_map]
    rfl
  have hobject' : ∀ r ∈ leaves, (!U.isObject (f r)) = !T.isObject r :=
    fun r hr ↦ by rw [hobject r hr]
  have hbefore := hsingles (List.takeWhile_sublist (fun r ↦ !T.isObject r) (l := leaves)).subset
  have hafter := hsingles (List.dropWhile_sublist (fun r ↦ !T.isObject r) (l := leaves)).subset
  unfold groupBranches
  simp only [filter_map_eq hobject, takeWhile_map_eq (p := fun r ↦ !U.isObject r) hobject',
    dropWhile_map_eq (p := fun r ↦ !U.isObject r) hobject', hbefore, hafter,
    hsingles (List.Subset.refl _)]
  rcases leaves.filter T.isObject with _ | ⟨first, _ | ⟨second, rest⟩⟩
  · rfl
  · simp [Branch.map]
  · simp [Branch.map]

theorem groupBranches_congr {p q : ρ → Bool} {leaves : List ρ} (h : ∀ r ∈ leaves, q r = p r) :
    T.groupBranches q leaves = T.groupBranches p leaves := by
  have hid : Branch.map (id : ρ → ρ) = id := by
    funext branch
    cases branch <;> simp [Branch.map]
  have hmap := groupBranches_map (f := id) (T := T) (U := T) (fun _ _ ↦ rfl) h
  rwa [List.map_id, hid, List.map_id] at hmap

variable [DecidableEq ρ] [DecidableEq σ]

omit [DecidableEq σ] in
/-- The references of the branches of a disjunction have smaller rank. -/
theorem Ranked.mem_branches (h : T.Ranked nodes rank) {r s : ρ} {alternatives : List ρ}
    {value : Json} {branch : Branch ρ} (hr : r ∈ nodes) (hcheck : T.check r = .oneOf alternatives)
    (hbranch : branch ∈ T.branches alternatives value) (hs : s ∈ branch.refs) :
    s ∈ nodes ∧ rank s < rank r := by
  have hall : ∀ a ∈ alternatives, a ∈ nodes ∧ rank a < rank r :=
    fun a ha ↦ h.mem_of_oneOf hr hcheck ha
  unfold branches branchesBy at hbranch
  split at hbranch
  · have hs := refs_subset_of_mem_groupBranches hbranch hs
    obtain ⟨hs, a, ha, hle⟩ := h.mem_splice (fun a ha ↦ (hall a ha).1) hs
    exact ⟨hs, hle.trans_lt (hall a ha).2⟩
  · obtain ⟨a, ha, rfl⟩ := List.mem_map.1 hbranch
    rw [Branch.refs, List.mem_singleton] at hs
    exact hs ▸ hall a (List.mem_filter.1 ha).1

/-! ### Looks through a covering -/

omit [DecidableEq ρ] [DecidableEq σ] in
theorem isObject_map (check : Check ρ) : (check.map f).isObject = check.isObject := by
  cases check <;> rfl

namespace Covers

variable (h : T.Covers U f nodes rank)

include h

theorem labelsWithin_eq {m n : Nat} {r : ρ} (hr : r ∈ nodes) (hm : rank r < m) (hn : rank r < n) :
    U.labelsWithin n (f r) = T.labelsWithin m r := by
  induction m generalizing n r with
  | zero => omega
  | succ m ih =>
    obtain ⟨n, rfl⟩ := Nat.exists_eq_succ_of_ne_zero (by omega : n ≠ 0)
    rw [labelsWithin, labelsWithin, h.check_eq r hr]
    cases hcheck : T.check r with
    | oneOf alternatives =>
      simp only [Check.map, List.map_map]
      refine congrArg LabelSet.unions (List.map_congr_left ?_)
      intro a ha
      have ha := h.mem_of_oneOf hr hcheck ha
      exact ih ha.1 (by omega) (by omega)
    | kind | literal | regex | arrayOf | object | anything => rfl

theorem labels_eq {r : ρ} (hr : r ∈ nodes) : U.labels (f r) = T.labels r :=
  h.labelsWithin_eq hr (h.lt_hops r hr) (h.lt_hops' r hr)

theorem labelsOf_eq {rs : List ρ} (hrs : ∀ r ∈ rs, r ∈ nodes) :
    U.labelsOf (rs.map f) = T.labelsOf rs := by
  rw [labelsOf, labelsOf, List.map_map]
  exact congrArg LabelSet.unions (List.map_congr_left fun r hr ↦ h.labels_eq (hrs r hr))

theorem branchesBy_eq {p : ρ → Bool} {q : σ → Bool} {r : ρ} {alternatives : List ρ}
    {value : Json} (hr : r ∈ nodes) (hcheck : T.check r = .oneOf alternatives)
    (hpq : ∀ s ∈ nodes, rank s < rank r → q (f s) = p s) :
    U.branchesBy q (alternatives.map f) value =
      (T.branchesBy p alternatives value).map (Branch.map f) := by
  have hall : ∀ a ∈ alternatives, a ∈ nodes ∧ rank a < rank r :=
    fun a ha ↦ h.mem_of_oneOf hr hcheck ha
  unfold branchesBy
  split
  · rw [h.splice_eq r hr alternatives hcheck]
    have hleaf : ∀ s ∈ T.splice alternatives, s ∈ nodes ∧ rank s < rank r := fun s hs ↦ by
      obtain ⟨hs, a, ha, hle⟩ := h.mem_splice (fun a ha ↦ (hall a ha).1) hs
      exact ⟨hs, hle.trans_lt (hall a ha).2⟩
    refine groupBranches_map (?_) fun s hs ↦ hpq s (hleaf s hs).1 (hleaf s hs).2
    intro s hs
    rw [isObject, h.check_eq s (hleaf s hs).1, isObject_map, isObject]
  · rw [filter_map_eq fun a ha ↦ hpq a (hall a ha).1 (hall a ha).2]
    simp only [List.map_map]
    rfl

theorem fitsWithin_eq {m n : Nat} {r : ρ} {value : Json} (hr : r ∈ nodes) (hm : rank r < m)
    (hn : rank r < n) : U.fitsWithin n (f r) value = T.fitsWithin m r value := by
  induction m generalizing n r with
  | zero => omega
  | succ m ih =>
    obtain ⟨n, rfl⟩ := Nat.exists_eq_succ_of_ne_zero (by omega : n ≠ 0)
    rw [fitsWithin, fitsWithin, h.check_eq r hr]
    cases hcheck : T.check r with
    | oneOf alternatives =>
      simp only [Check.map]
      rw [h.branchesBy_eq (p := fun a ↦ T.fitsWithin m a value)
        (q := fun a ↦ U.fitsWithin n a value) hr hcheck
        fun s hs hlt ↦ ih hs (by omega) (by omega), List.length_map]
    | kind | literal | regex | arrayOf | object | anything => rfl

theorem fits_eq {r : ρ} {value : Json} (hr : r ∈ nodes) : U.fits (f r) value = T.fits r value :=
  h.fitsWithin_eq hr (h.lt_hops r hr) (h.lt_hops' r hr)

theorem branches_eq {r : ρ} {alternatives : List ρ} {value : Json} (hr : r ∈ nodes)
    (hcheck : T.check r = .oneOf alternatives) :
    U.branches (alternatives.map f) value =
      (T.branches alternatives value).map (Branch.map f) :=
  h.branchesBy_eq hr hcheck fun _ hs _ ↦ h.fits_eq hs

end Covers

/-! ### Functions that tell leaves apart -/

section Leaves

variable (h : T.Ranked nodes rank) (hcheck : ∀ r ∈ nodes, U.check (f r) = (T.check r).map f)

include h hcheck

omit [DecidableEq ρ] [DecidableEq σ] in
theorem Ranked.leavesWithin_map {m n : Nat} {r : ρ} (hr : r ∈ nodes) (hm : rank r < m)
    (hn : rank r < n) : U.leavesWithin n (f r) = (T.leavesWithin m r).map f := by
  induction m generalizing n r with
  | zero => omega
  | succ m ih =>
    obtain ⟨n, rfl⟩ := Nat.exists_eq_succ_of_ne_zero (by omega : n ≠ 0)
    rw [leavesWithin, leavesWithin, hcheck r hr]
    cases hcheck' : T.check r with
    | oneOf alternatives =>
      simp only [Check.map, List.flatMap_map, List.map_flatMap]
      refine List.flatMap_congr ?_
      intro a ha
      obtain ⟨ha, hlt⟩ := h.mem_of_oneOf hr hcheck' ha
      exact ih ha (by omega) (by omega)
    | kind | literal | regex | arrayOf | object | anything => rfl

omit [DecidableEq ρ] [DecidableEq σ] in
/-- The leaves below several checks are carried over, each as often as it is met. -/
theorem Ranked.leaves_map (hhops : ∀ r ∈ nodes, rank r < U.hops) {rs : List ρ}
    (hrs : ∀ r ∈ rs, r ∈ nodes) : U.leaves (rs.map f) = (T.leaves rs).map f := by
  rw [leaves, leaves, List.flatMap_map, List.map_flatMap]
  exact List.flatMap_congr fun r hr ↦
    h.leavesWithin_map hcheck (hrs r hr) (h.lt_hops r (hrs r hr)) (hhops r (hrs r hr))

/-- A function that carries checks to checks is a covering if it tells the leaves below every
disjunction apart. -/
theorem Covers.of_injOn_leaves (hhops : ∀ r ∈ nodes, rank r < U.hops)
    (hf : ∀ r ∈ nodes, ∀ alternatives, T.check r = .oneOf alternatives →
      Set.InjOn f {leaf | leaf ∈ T.leaves alternatives}) :
    T.Covers U f nodes rank := by
  refine ⟨h, hhops, hcheck, ?_⟩
  intro r hr alternatives hcheck'
  have halternatives : ∀ a ∈ alternatives, a ∈ nodes :=
    fun a ha ↦ (h.mem_of_oneOf hr hcheck' ha).1
  have hleaves : Set.InjOn f {leaf | leaf ∈ [] ∨ leaf ∈ T.leaves alternatives} := by
    simpa using hf r hr alternatives hcheck'
  rw [splice_eq_foldl, splice_eq_foldl, h.leaves_map hcheck hhops halternatives]
  exact foldl_addLeaf_map hleaves

end Leaves

/-- An injective function that carries checks to checks is a covering. -/
theorem Covers.of_injOn (h : T.Ranked nodes rank) (hhops : ∀ r ∈ nodes, rank r < U.hops)
    (hcheck : ∀ r ∈ nodes, U.check (f r) = (T.check r).map f) (hf : Set.InjOn f nodes) :
    T.Covers U f nodes rank :=
  .of_injOn_leaves h hcheck hhops fun _ hr _ hcheck' ↦ hf.mono fun _ hleaf ↦
    (h.mem_leaves (fun _ ha ↦ (h.mem_of_oneOf hr hcheck' ha).1) hleaf).1

omit [DecidableEq σ] in
/-- More hops than the rank are as good as any. -/
theorem Ranked.covers_hops (h : T.Ranked nodes rank) {n : Nat} (hn : ∀ r ∈ nodes, rank r < n) :
    T.Covers ⟨T.check, n⟩ id nodes rank :=
  .of_injOn h hn (fun r _ ↦ (T.check r).map_id.symm) (Set.injOn_id nodes)

omit [DecidableEq σ] in
theorem Ranked.covers_self (h : T.Ranked nodes rank) : T.Covers T id nodes rank :=
  h.covers_hops h.lt_hops

end Table

end JsonPattern
