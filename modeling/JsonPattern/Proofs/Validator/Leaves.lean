import JsonPattern.Validator.Shallow
import Mathlib.Data.List.Nodup
import Mathlib.Data.List.Perm.Subperm
import Mathlib.Data.Set.Function

/-!
# Lists of leaves

Splicing walks the disjunctions below checks from left to right. What it finds are the leaves in the
order in which they are met, each kept where it is met first and dropped wherever it is met again
(`Table.splice_eq_foldl`). So what holds of splicing is proved of the leaves, by induction on the
walk, and of the list that they are added to, one after the other.
-/

namespace JsonPattern

namespace Table

variable {ρ σ : Type} [DecidableEq ρ] {T : Table ρ} {done leaves : List ρ}

/-- Adds a leaf to a list, unless it is there already. -/
def addLeaf (done : List ρ) (leaf : ρ) : List ρ :=
  if leaf ∈ done then done else done ++ [leaf]

theorem mem_foldl_addLeaf {r : ρ} : r ∈ leaves.foldl addLeaf done ↔ r ∈ done ∨ r ∈ leaves := by
  induction leaves generalizing done with
  | nil => simp
  | cons leaf leaves ih =>
    rw [List.foldl_cons, ih, addLeaf, List.mem_cons]
    split
    · next hleaf =>
      exact ⟨Or.imp_right .inr,
        fun h ↦ h.elim .inl fun h ↦ h.elim (fun he ↦ .inl (he ▸ hleaf)) .inr⟩
    · rw [List.mem_append, List.mem_singleton, or_assoc]

theorem nodup_foldl_addLeaf (hdone : done.Nodup) (leaves : List ρ) :
    (leaves.foldl addLeaf done).Nodup := by
  induction leaves generalizing done with
  | nil => exact hdone
  | cons leaf leaves ih =>
    refine ih ?_
    rw [addLeaf]
    split
    · exact hdone
    · next hleaf => exact List.nodup_append.2 ⟨hdone, List.pairwise_singleton _ leaf,
        fun a ha b hb ↦ List.mem_singleton.1 hb ▸ fun he ↦ hleaf (he ▸ ha)⟩

theorem foldl_addLeaf_of_nodup (hnodup : (done ++ leaves).Nodup) :
    leaves.foldl addLeaf done = done ++ leaves := by
  induction leaves generalizing done with
  | nil => rw [List.foldl_nil, List.append_nil]
  | cons leaf leaves ih =>
    rw [List.append_cons] at hnodup ⊢
    have hleaf : leaf ∉ done := fun hmem ↦
      (List.nodup_append.1 (List.nodup_append.1 hnodup).1).2.2 leaf hmem leaf
        List.mem_cons_self rfl
    rw [List.foldl_cons, addLeaf, if_neg hleaf, ih hnodup]

/-- In another order the same leaves are found. -/
theorem foldl_addLeaf_perm {others : List ρ} (h : leaves.Perm others) :
    (leaves.foldl addLeaf []).Perm (others.foldl addLeaf []) :=
  (List.perm_ext_iff_of_nodup (nodup_foldl_addLeaf List.nodup_nil leaves)
    (nodup_foldl_addLeaf List.nodup_nil others)).2 fun r ↦ by
      rw [mem_foldl_addLeaf, mem_foldl_addLeaf, h.mem_iff]

/-- A function that tells the leaves apart carries what is found to what is found. -/
theorem foldl_addLeaf_map [DecidableEq σ] {f : ρ → σ}
    (hf : Set.InjOn f {r | r ∈ done ∨ r ∈ leaves}) :
    (leaves.map f).foldl addLeaf (done.map f) = (leaves.foldl addLeaf done).map f := by
  induction leaves generalizing done with
  | nil => rfl
  | cons leaf leaves ih =>
    have hadd : addLeaf (done.map f) (f leaf) = (addLeaf done leaf).map f := by
      have hiff : f leaf ∈ done.map f ↔ leaf ∈ done := by
        refine ⟨fun hmem ↦ ?_, List.mem_map_of_mem⟩
        obtain ⟨r, hr, he⟩ := List.mem_map.1 hmem
        exact hf (.inl hr) (.inr List.mem_cons_self) he ▸ hr
      simp only [addLeaf, hiff]
      split <;> simp
    rw [List.map_cons, List.foldl_cons, List.foldl_cons, hadd]
    refine ih (hf.mono ?_)
    rintro r (hr | hr)
    · have hmem : r ∈ [leaf].foldl addLeaf done := hr
      rcases mem_foldl_addLeaf.1 hmem with hr | hr
      · exact .inl hr
      · exact .inr (List.mem_cons.2 (.inl (List.mem_singleton.1 hr)))
    · exact .inr (List.mem_cons_of_mem leaf hr)

theorem spliceInto_eq_foldl (hops : Nat) (done : List ρ) (r : ρ) :
    T.spliceInto hops done r = (T.leavesWithin hops r).foldl addLeaf done := by
  induction hops generalizing done r with
  | zero => rfl
  | succ hops ih =>
    rw [spliceInto, leavesWithin]
    cases T.check r with
    | oneOf alternatives =>
      simp only
      induction alternatives generalizing done with
      | nil => rfl
      | cons a alternatives iha =>
        rw [List.foldl_cons, List.flatMap_cons, List.foldl_append, ih, iha]
    | kind | literal | regex | arrayOf | object | anything => rfl

/-- Splicing keeps every leaf where it is first met. -/
theorem splice_eq_foldl (rs : List ρ) : T.splice rs = (T.leaves rs).foldl addLeaf [] := by
  rw [splice, Table.leaves]
  generalize ([] : List ρ) = done
  induction rs generalizing done with
  | nil => rfl
  | cons r rs ih =>
    rw [List.foldl_cons, List.flatMap_cons, List.foldl_append, ih, spliceInto_eq_foldl]

theorem mem_splice_iff_mem_leaves {rs : List ρ} {leaf : ρ} :
    leaf ∈ T.splice rs ↔ leaf ∈ T.leaves rs := by
  rw [splice_eq_foldl, mem_foldl_addLeaf]
  exact or_iff_right List.not_mem_nil

theorem splice_nodup (rs : List ρ) : (T.splice rs).Nodup := by
  rw [splice_eq_foldl]
  exact nodup_foldl_addLeaf List.nodup_nil (T.leaves rs)

end Table

end JsonPattern
