import JsonPattern.Graph.CycleSearch
import JsonPattern.Proofs.Lockstep
import Mathlib.Data.Set.Function

/-!
# Lists of images

Nodes may go by other names. As long as different nodes have different names, membership and places
in a list of nodes are those in the list of their names, and a search for cycles meets the names of
the nodes that it would meet.
-/

namespace JsonPattern

variable {α β : Type} {nodes : Set α} {image : α → β}

variable (nodes image) in
/-- A list holds the images of nodes of a set, in the same order. -/
def Images (xs : List α) (ys : List β) : Prop := (∀ x ∈ xs, x ∈ nodes) ∧ ys = xs.map image

theorem Images.nil : Images nodes image [] [] := ⟨by simp, rfl⟩

theorem Images.cons {xs : List α} {ys : List β} (h : Images nodes image xs ys) {v : α}
    (hv : v ∈ nodes) : Images nodes image (v :: xs) (image v :: ys) :=
  ⟨List.forall_mem_cons.2 ⟨hv, h.1⟩, by rw [h.2, List.map_cons]⟩

theorem Images.append {xs xs' : List α} {ys ys' : List β} (h : Images nodes image xs ys)
    (h' : Images nodes image xs' ys') : Images nodes image (xs ++ xs') (ys ++ ys') :=
  ⟨List.forall_mem_append.2 ⟨h.1, h'.1⟩, by rw [h.2, h'.2, List.map_append]⟩

theorem Images.concat {xs : List α} {ys : List β} (h : Images nodes image xs ys) {v : α}
    (hv : v ∈ nodes) : Images nodes image (xs ++ [v]) (ys ++ [image v]) :=
  h.append (.cons .nil hv)

theorem Images.forall₂ {xs : List α} {ys : List β} (h : Images nodes image xs ys) :
    List.Forall₂ (fun x y ↦ x ∈ nodes ∧ y = image x) xs ys := by
  rw [h.2, List.forall₂_map_right_iff, List.forall₂_same]
  exact fun x hx ↦ ⟨h.1 x hx, rfl⟩

/-- Where images are not confused, a node stands in a list exactly if its image stands in the list
of images. -/
theorem Images.mem_iff {xs : List α} {ys : List β} (h : Images nodes image xs ys)
    (hinj : Set.InjOn image nodes) {v : α} (hv : v ∈ nodes) : image v ∈ ys ↔ v ∈ xs := by
  obtain ⟨hxs, rfl⟩ := h
  constructor
  · intro hmem
    obtain ⟨x, hx, he⟩ := List.mem_map.1 hmem
    exact hinj (hxs x hx) hv he ▸ hx
  · exact List.mem_map_of_mem

variable [DecidableEq α] [DecidableEq β]

/-- Where images are not confused, a node and its image have the same place. -/
theorem Images.idxOf_eq {xs : List α} {ys : List β} (h : Images nodes image xs ys)
    (hinj : Set.InjOn image nodes) {v : α} (hv : v ∈ nodes) :
    ys.idxOf (image v) = xs.idxOf v := by
  obtain ⟨hxs, rfl⟩ := h
  induction xs with
  | nil => rfl
  | cons x xs ih =>
    obtain ⟨hx, hxs⟩ := List.forall_mem_cons.1 hxs
    rw [List.map_cons, List.idxOf_cons, List.idxOf_cons, ih hxs]
    by_cases he : x = v
    · obtain rfl := he
      rw [beq_self_eq_true, beq_self_eq_true]
    · have hne : image x ≠ image v := fun h ↦ he (hinj hx hv h)
      rw [beq_false_of_ne he, beq_false_of_ne hne]

/-- Where images are not confused, what is kept for a node is kept for its image. -/
theorem Images.lookup_eq {γ : Type} {xs : List (α × γ)} {ys : List (β × γ)}
    (h : Images {x | x.1 ∈ nodes} (Prod.map image id) xs ys) (hinj : Set.InjOn image nodes) {v : α}
    (hv : v ∈ nodes) : ys.lookup (image v) = xs.lookup v := by
  obtain ⟨hxs, rfl⟩ := h
  induction xs with
  | nil => rfl
  | cons x xs ih =>
    obtain ⟨hx, hxs⟩ := List.forall_mem_cons.1 hxs
    rw [List.map_cons, List.lookup_cons, List.lookup_cons, ih hxs]
    by_cases he : v = x.1
    · obtain rfl := he
      simp
    · have hne : image v ≠ image x.1 := fun h ↦ he (hinj hv hx h)
      rw [Prod.map_fst, beq_false_of_ne he, beq_false_of_ne hne]

/-! ### Searching images -/

variable {successors : α → List α} {successors' : β → List β}

/-- Searches for cycles in lockstep: either both meet a node on a cycle and its image, or both
close the same nodes. -/
abbrev SearchLockstep (nodes : Set α) (image : α → β) :
    Except α (List α) → Except β (List β) → Prop :=
  Lockstep (fun _ ↦ False) (fun v w ↦ w = image v) (Images nodes image)

variable (hinj : Set.InjOn image nodes)
  (hsuccessors : ∀ v ∈ nodes, Images nodes image (successors v) (successors' (image v)))

include hinj hsuccessors

theorem searchFrom_lockstep (budget : Nat) {around done : List α} {around' done' : List β} {v : α}
    (hv : v ∈ nodes) (haround : Images nodes image around around')
    (hdone : Images nodes image done done') :
    SearchLockstep nodes image (searchFrom successors budget around done v)
      (searchFrom successors' budget around' done' (image v)) := by
  induction budget generalizing around around' done done' v with
  | zero => exact .ok hdone
  | succ budget ih =>
    refine Lockstep.bind (R := Images nodes image) ?_ fun _ _ hclosed ↦ .ok (hclosed.cons hv)
    refine (Lockstep.lifting _ _).foldlM (hsuccessors v hv).forall₂ ?_ hdone
    rintro done done' w _ hdone ⟨hw, rfl⟩
    have haround := haround.cons hv
    have hopen := haround.mem_iff hinj hw
    have hknown := hdone.mem_iff hinj hw
    by_cases h : w ∈ v :: around
    · rw [if_pos h, if_pos (hopen.2 h)]
      exact .error rfl
    · rw [if_neg h, if_neg (mt hopen.1 h)]
      by_cases h : w ∈ done
      · rw [if_pos h, if_pos (hknown.2 h)]
        exact .ok hdone
      · rw [if_neg h, if_neg (mt hknown.1 h)]
        exact ih hw haround hdone

theorem searchAll_lockstep (budget : Nat) {starts : List α} {starts' : List β}
    (hstarts : Images nodes image starts starts') :
    SearchLockstep nodes image (searchAll successors budget starts)
      (searchAll successors' budget starts') := by
  refine (Lockstep.lifting _ _).foldlM hstarts.forall₂ ?_ .nil
  rintro done done' v _ hdone ⟨hv, rfl⟩
  have hknown := hdone.mem_iff hinj hv
  by_cases h : v ∈ done
  · rw [if_pos h, if_pos (hknown.2 h)]
    exact .ok hdone
  · rw [if_neg h, if_neg (mt hknown.1 h)]
    exact searchFrom_lockstep hinj hsuccessors budget hv .nil hdone

end JsonPattern
