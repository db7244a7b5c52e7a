import JsonPattern.Proofs.Graph.Unfolding

/-!
# Parts and labels of outlines

The parts of an outline are at addresses: the positions of the references that lead to them. The
labels of a numbered outline are the numbers at the occurrences of its nodes. They are given in the
order in which the occurrences appear, so each of them is given once, and the label of an
occurrence gives its address away.
-/

namespace JsonPattern

/-- Where nothing is collected twice, it is collected at one position only. -/
theorem index_unique_of_nodup_flatMap {α β : Type} {items : List α} {f : α → List β}
    (hnodup : (items.flatMap f).Nodup) {i j : Nat} {a a' : α} {b : β} (hi : items[i]? = some a)
    (hj : items[j]? = some a') (hb : b ∈ f a) (hb' : b ∈ f a') : i = j := by
  obtain ⟨hi', rfl⟩ := List.getElem?_eq_some_iff.1 hi
  obtain ⟨hj', rfl⟩ := List.getElem?_eq_some_iff.1 hj
  have hdisjoint := List.pairwise_iff_getElem.1 (List.nodup_flatMap.1 hnodup).2
  rcases lt_trichotomy i j with hlt | heq | hlt
  · exact absurd hb' (hdisjoint i j hi' hj' hlt hb)
  · exact heq
  · exact absurd hb (hdisjoint j i hj' hi' hlt hb')

namespace Outline

/-! ### Parts -/

section Parts

variable {β ν : Type}

/-- The part at an address. -/
def part : Outline β ν → List Nat → Option (Outline β ν)
  | outline, [] => some outline
  | .again _, _ :: _ => none
  | .node _ shape, i :: address => shape.refs[i]?.bind fun next ↦ next.part address

theorem part_append (outline : Outline β ν) (address rest : List Nat) :
    outline.part (address ++ rest) = (outline.part address).bind (·.part rest) := by
  induction address generalizing outline with
  | nil => cases outline <;> rfl
  | cons i address ih =>
    cases outline with
    | again mark => rfl
    | node mark shape =>
      simp only [List.cons_append, part, Option.bind_assoc, ih]

/-- The parts right below an address are what the node there refers to. -/
theorem part_concat {outline : Outline β ν} {address : List Nat} {mark : ν}
    {shape : Shape (Outline β ν)} (h : outline.part address = some (.node mark shape)) (i : Nat) :
    outline.part (address ++ [i]) = shape.refs[i]? := by
  rw [part_append, h]
  change shape.refs[i]?.bind (fun next ↦ next.part []) = _
  cases hnext : shape.refs[i]? with
  | none => rfl
  | some next => cases next <;> rfl

end Parts

/-! ### Labels -/

namespace Numbered

/-- The labels, in the order of appearance. -/
def labels : Numbered → List Nat :=
  fold (fun _ ↦ []) fun (_, number) shape ↦ number.toList ++ shape.refs.flatten

theorem labels_node (id : NodeId) (number : Option Nat) (shape : Shape Numbered) :
    labels (.node (id, number) shape) = number.toList ++ shape.refs.flatMap labels := by
  rw [labels, fold_node, Shape.refs_map, List.flatMap_def]

/-- The part at an address is an occurrence of a node with a label. -/
def Bears (tree : Numbered) (address : List Nat) (number : Nat) : Prop :=
  ∃ id shape, tree.part address = some (.node (id, some number) shape)

variable {tree : Numbered} {address address' : List Nat} {number : Nat}

theorem not_bears_again (mark : NodeId × Nat) : ¬ Bears (.again mark) address number := by
  rintro ⟨id, shape, hpart⟩
  cases address <;> cases hpart

theorem bears_nil_iff {id : NodeId} {label : Option Nat} {shape : Shape Numbered} :
    Bears (.node (id, label) shape) [] number ↔ label = some number := by
  constructor
  · rintro ⟨id, shape, hpart⟩
    cases hpart
    rfl
  · rintro rfl
    exact ⟨id, shape, rfl⟩

theorem bears_cons_iff {mark : NodeId × Option Nat} {shape : Shape Numbered} {i : Nat} :
    Bears (.node mark shape) (i :: address) number ↔
      ∃ next, shape.refs[i]? = some next ∧ Bears next address number := by
  constructor
  · rintro ⟨id, shape', hpart⟩
    obtain ⟨next, hnext, hpart⟩ := Option.bind_eq_some_iff.1 hpart
    exact ⟨next, hnext, id, shape', hpart⟩
  · rintro ⟨next, hnext, id, shape', hpart⟩
    exact ⟨id, shape', Option.bind_eq_some_iff.2 ⟨next, hnext, hpart⟩⟩

theorem Bears.mem_labels (h : tree.Bears address number) : number ∈ tree.labels := by
  induction address generalizing tree with
  | nil =>
    cases tree with
    | again mark => exact absurd h (not_bears_again mark)
    | node mark shape =>
      obtain ⟨id, label⟩ := mark
      rw [labels_node, bears_nil_iff.1 h]
      exact List.mem_append_left _ List.mem_cons_self
  | cons i address ih =>
    cases tree with
    | again mark => exact absurd h (not_bears_again mark)
    | node mark shape =>
      obtain ⟨next, hnext, hbears⟩ := bears_cons_iff.1 h
      rw [labels_node]
      exact List.mem_append_right _
        (List.mem_flatMap.2 ⟨next, List.mem_of_getElem? hnext, ih hbears⟩)

/-- Where no label is given twice, a label is at one address only. -/
theorem Bears.unique (hnodup : tree.labels.Nodup) (h : tree.Bears address number)
    (h' : tree.Bears address' number) : address = address' := by
  induction address generalizing tree address' with
  | nil =>
    cases tree with
    | again mark => exact absurd h (not_bears_again mark)
    | node mark shape =>
      obtain ⟨id, label⟩ := mark
      obtain rfl := bears_nil_iff.1 h
      rw [labels_node] at hnodup
      cases address' with
      | nil => rfl
      | cons j address' =>
        obtain ⟨next, hnext, hbears⟩ := bears_cons_iff.1 h'
        have hmem := List.mem_flatMap.2 ⟨next, List.mem_of_getElem? hnext, hbears.mem_labels⟩
        exact absurd hmem (List.disjoint_of_nodup_append hnodup List.mem_cons_self)
  | cons i address ih =>
    cases tree with
    | again mark => exact absurd h (not_bears_again mark)
    | node mark shape =>
      obtain ⟨id, label⟩ := mark
      obtain ⟨next, hnext, hbears⟩ := bears_cons_iff.1 h
      rw [labels_node] at hnodup
      cases address' with
      | nil =>
        obtain rfl := bears_nil_iff.1 h'
        have hmem := List.mem_flatMap.2 ⟨next, List.mem_of_getElem? hnext, hbears.mem_labels⟩
        exact absurd hmem (List.disjoint_of_nodup_append hnodup List.mem_cons_self)
      | cons j address' =>
        obtain ⟨next', hnext', hbears'⟩ := bears_cons_iff.1 h'
        have hparts := (List.nodup_append.1 hnodup).2.1
        obtain rfl := index_unique_of_nodup_flatMap hparts hnext hnext' hbears.mem_labels
          hbears'.mem_labels
        cases hnext.symm.trans hnext'
        have hnext := (List.nodup_flatMap.1 hparts).1 next (List.mem_of_getElem? hnext)
        rw [ih hnext hbears hbears']

end Numbered

end Outline

/-! ### Labels are given in order -/

/-- A plan yields something with the next numbers in order, and counts on to the last of them. -/
def CountsOn {α : Type} (labels : α → List Nat) (plan : StateM Nat α) : Prop :=
  ∀ count, ∃ n, labels (plan count).1 = List.range' (count + 1) n ∧ (plan count).2 = count + n

namespace CountsOn

variable {α β : Type} {labels : α → List Nat}

theorem mapM {ρ : Type} {action : ρ → StateM Nat α} : {items : List ρ} →
    (∀ r ∈ items, CountsOn labels (action r)) →
    CountsOn (fun results ↦ results.flatMap labels) (items.mapM action)
  | [], _ => fun count ↦ ⟨0, rfl, rfl⟩
  | r :: items, h => by
    obtain ⟨hr, hitems⟩ := List.forall_mem_cons.1 h
    intro count
    obtain ⟨n, hfirst, hcount⟩ := hr count
    obtain ⟨n', hrest, hcount'⟩ := mapM hitems (action r count).2
    rw [List.mapM_cons]
    refine ⟨n + n', ?_, ?_⟩
    · have hfrom : (action r count).2 + 1 = count + 1 + n := by omega
      rw [hfrom] at hrest
      exact (congrArg₂ (· ++ ·) hfirst hrest).trans List.range'_append_1
    · change (items.mapM action (action r count).2).2 = _
      rw [hcount', hcount, Nat.add_assoc]

theorem shape_mapM {ρ : Type} {action : ρ → StateM Nat α} {shape : Shape ρ}
    (h : ∀ r ∈ shape.refs, CountsOn labels (action r)) :
    CountsOn (fun shape ↦ shape.refs.flatMap labels) (shape.mapM action) := by
  intro count
  have hrefs := congrFun (shape.refs_mapM action) count
  obtain ⟨n, hlabels, hcount⟩ := mapM h count
  rw [← hrefs] at hlabels hcount
  exact ⟨n, hlabels, hcount⟩

end CountsOn

/-- The labels of an outline are given in the order of appearance. -/
theorem Graph.HasOutline.countsOn_numberFrom {g : Graph} {around : List NodeId} {id : NodeId}
    {outline : Outline NodeId NodeId} (h : g.HasOutline around id outline) (heads : List NodeId)
    (env : List (NodeId × Nat)) :
    CountsOn Outline.Numbered.labels (Outline.numberFrom heads outline env) := by
  induction h generalizing env with
  | again => exact fun count ↦ ⟨0, rfl, rfl⟩
  | @node around id target shape h hnew part hparts ih =>
    rw [Outline.numberFrom_node]
    simp only [Shape.mapM_map]
    intro count
    by_cases hhead : target ∈ heads
    · obtain ⟨n, hlabels, hcount⟩ := CountsOn.shape_mapM
        (fun ref href ↦ ih ref href ((target, count + 1) :: env)) (count + 1)
      rw [if_pos hhead]
      refine ⟨n + 1, ?_, hcount.trans (by omega)⟩
      refine (Outline.Numbered.labels_node ..).trans ?_
      exact congrArg (List.cons (count + 1)) hlabels
    · obtain ⟨n, hlabels, hcount⟩ := CountsOn.shape_mapM (fun ref href ↦ ih ref href env) count
      rw [if_neg hhead]
      exact ⟨n, (Outline.Numbered.labels_node ..).trans hlabels, hcount⟩

end JsonPattern
