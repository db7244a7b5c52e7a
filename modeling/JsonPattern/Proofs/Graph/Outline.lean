import JsonPattern.Graph.Outline
import JsonPattern.Proofs.Graph.Mirror

/-!
# Outlines of graphs that mirror each other

Corresponding references are unfolded in lockstep, so that the outline of the one is that of the
other with other names for the nodes. The names do not show in the text: the nodes that are met
again are numbered in the order of appearance.
-/

namespace JsonPattern

namespace Outline

/-! ### Folding -/

section Fold

variable {β ν α : Type} (again : β → α) (node : ν → Shape α → α)

mutual

theorem foldClause_eq_map : (clause : Clause (Outline β ν)) →
    foldClause again node clause = clause.map (fold again node)
  | .named _ _ => rfl
  | .optional group => congrArg Clause.optional (foldGroup_eq_map group)
  | .many _ => rfl
  | .flatten _ => rfl
  | .oneOf groups => congrArg Clause.oneOf (foldGroups_eq_map groups)

theorem foldGroup_eq_map : (group : List (Clause (Outline β ν))) →
    foldGroup again node group = groupMap (fold again node) group
  | [] => rfl
  | clause :: group => congrArg₂ List.cons (foldClause_eq_map clause) (foldGroup_eq_map group)

theorem foldGroups_eq_map : (groups : List (List (Clause (Outline β ν)))) →
    foldGroups again node groups = groupsMap (fold again node) groups
  | [] => rfl
  | group :: groups => congrArg₂ List.cons (foldGroup_eq_map group) (foldGroups_eq_map groups)

end

theorem foldAlternatives_eq_map (alternatives : List (Outline β ν)) :
    foldAlternatives again node alternatives = alternatives.map (fold again node) := by
  induction alternatives with
  | nil => rfl
  | cons _ _ ih => exact congrArg _ ih

/-- Folding an outline folds what its root refers to. -/
theorem fold_node (mark : ν) (shape : Shape (Outline β ν)) :
    fold again node (.node mark shape) = node mark (shape.map (fold again node)) := by
  rw [fold]
  cases shape with
  | object clauses => rw [foldShape, foldGroup_eq_map]; rfl
  | oneOf alternatives => rw [foldShape, foldAlternatives_eq_map]; rfl
  | literal | type | regex | arrayOf | anything => rfl

end Fold

theorem agains_node {β ν : Type} (mark : ν) (shape : Shape (Outline β ν)) :
    agains (.node mark shape) = shape.refs.flatMap agains := by
  rw [agains, fold_node, Shape.refs_map, List.flatMap_def]

theorem numberFrom_node (heads : List NodeId) (id : NodeId) (shape : Shape (Outline NodeId NodeId))
    (around : List (NodeId × Nat)) :
    numberFrom heads (.node id shape) around =
      if id ∈ heads then do
        let number := (← get) + 1
        set number
        return .node (id, some number)
          (← (shape.map (numberFrom heads)).mapM fun next ↦ next ((id, number) :: around))
      else do
        return .node (id, none)
          (← (shape.map (numberFrom heads)).mapM fun next ↦ next around) := by
  rw [numberFrom, fold_node]

theorem Numbered.text_node (id : NodeId) (number : Option Nat) (shape : Shape Numbered) :
    Numbered.text (.node (id, number) shape) = match number with
      | some number => "#" ++ toString number ++ "=" ++ (shape.map Numbered.text).text
      | none => (shape.map Numbered.text).text :=
  fold_node _ _ (id, number) shape

/-- Numbered outlines that read the same. -/
def Numbered.SameText (numbered numbered' : Numbered) : Prop := numbered.text = numbered'.text

theorem Numbered.SameText.node (id id' : NodeId) (number : Option Nat)
    {shape shape' : Shape Numbered} (h : shape.Relates SameText shape') :
    SameText (.node (id, number) shape) (.node (id', number) shape') := by
  have hparts : shape.map text = shape'.map text := h.map_eq fun _ _ h ↦ h
  rw [SameText, text_node, text_node, hparts]

/-! ### Outlines under other names -/

variable {nodes : Set NodeId} {image : NodeId → NodeId}

variable (nodes image) in
/-- An outline of nodes of a set, and the same with the images of the nodes. -/
inductive Renames : Outline NodeId NodeId → Outline NodeId NodeId → Prop
  | again {id : NodeId} (hid : id ∈ nodes) : Renames (.again id) (.again (image id))
  | node {id : NodeId} (hid : id ∈ nodes)
      (pairs : Shape (Outline NodeId NodeId × Outline NodeId NodeId))
      (hpairs : ∀ p ∈ pairs.refs, Renames p.1 p.2) :
      Renames (.node id (pairs.map Prod.fst)) (.node (image id) (pairs.map Prod.snd))

namespace Renames

variable {outline outline' : Outline NodeId NodeId} (h : Renames nodes image outline outline')

include h

/-- The nodes that are met again are images of the nodes that are met again. -/
theorem agains_images : Images nodes image outline.agains outline'.agains := by
  induction h with
  | again hid => exact .cons .nil hid
  | @node id hid pairs hpairs ih =>
    rw [agains_node, agains_node, Shape.refs_map, Shape.refs_map]
    generalize pairs.refs = pairs at ih ⊢
    induction pairs with
    | nil => exact .nil
    | cons pair pairs ihp =>
      obtain ⟨hpair, hpairs⟩ := List.forall_mem_cons.1 ih
      simp only [List.map_cons, List.flatMap_cons]
      exact hpair.append (ihp hpairs)

/-- Numbers are given to nodes and to their images in lockstep. -/
theorem numberFrom_lockstep (hinj : Set.InjOn image nodes) {heads heads' : List NodeId}
    (hheads : Images nodes image heads heads') {around around' : List (NodeId × Nat)}
    (haround : Images {x | x.1 ∈ nodes} (Prod.map image id) around around') :
    (Lifting.state Nat).rel Numbered.SameText (numberFrom heads outline around)
      (numberFrom heads' outline' around') := by
  induction h generalizing around around' with
  | again hid =>
    refine Lifting.rel_pure _ ?_
    rw [haround.lookup_eq hinj hid]
    rfl
  | @node target htarget pairs hpairs ih =>
    have hparts {around around' : List (NodeId × Nat)}
        (haround : Images {x | x.1 ∈ nodes} (Prod.map image id) around around') :
        (Lifting.state Nat).rel (Shape.Relates Numbered.SameText)
          (((pairs.map Prod.fst).map (numberFrom heads)).mapM fun next ↦ next around)
          (((pairs.map Prod.snd).map (numberFrom heads')).mapM fun next ↦ next around') :=
      have hnext := Shape.Relates.map (S := fun next next' ↦
          (Lifting.state Nat).rel Numbered.SameText (next around) (next' around'))
        ⟨pairs, rfl, rfl, fun p hp ↦ ih p hp haround⟩ fun _ _ h ↦ h
      hnext.mapM_rel _ fun _ _ _ h ↦ h
    rw [numberFrom_node, numberFrom_node]
    by_cases hhead : target ∈ heads
    · rw [if_pos hhead, if_pos ((hheads.mem_iff hinj htarget).2 hhead)]
      refine Lifting.rel_bind _ (R := Eq) (fun _ ↦ ⟨rfl, rfl⟩) ?_
      rintro number _ rfl
      refine Lifting.rel_bind _ (R := Eq) (fun _ ↦ ⟨rfl, rfl⟩) fun _ _ _ ↦ ?_
      exact Lifting.rel_bind _ (hparts (haround.cons (v := (target, number + 1)) htarget))
        fun _ _ hshape ↦ Lifting.rel_pure _ (.node _ _ _ hshape)
    · rw [if_neg hhead, if_neg (mt (hheads.mem_iff hinj htarget).1 hhead)]
      exact Lifting.rel_bind _ (hparts haround) fun _ _ hshape ↦
        Lifting.rel_pure _ (.node _ _ _ hshape)

/-- The names of nodes do not show in the text. -/
theorem text_eq (hinj : Set.InjOn image nodes) :
    outline.numbered.text = outline'.numbered.text :=
  (h.numberFrom_lockstep hinj h.agains_images .nil 0).1

end Renames

end Outline

/-! ### Unfolding -/

namespace Graph

variable {g g' : Graph}

/-- A budget that is enough to unfold a pattern can be any such budget. -/
theorem unfold_eq {budget budget' : Nat} {around : List NodeId} (haround : g.Distinct around)
    (hbudget : g.size < budget + around.length) (hbudget' : g.size < budget' + around.length)
    (id : NodeId) : g.unfold budget around id = g.unfold budget' around id := by
  induction budget generalizing budget' around id with
  | zero =>
    have := haround.length_le
    omega
  | succ budget ih =>
    cases budget' with
    | zero =>
      have := haround.length_le
      omega
    | succ budget' =>
      rw [unfold, unfold]
      rcases hresolve : g.resolve id with fault | ⟨target, shape⟩
      · rfl
      · have hlt := (resolve_eq_ok_iff.1 hresolve).index_lt
        by_cases hopen : target ∈ around
        · simp only [bind, Except.bind, if_pos hopen]
        · have hnext := haround.cons hlt hopen
          have hbelow : g.unfold budget (target :: around) = g.unfold budget' (target :: around) :=
            funext fun id ↦ ih hnext (by simp; omega) (by simp; omega) id
          simp only [bind, Except.bind, if_neg hopen, hbelow]

theorem unfold_eq_outline {budget : Nat} (hbudget : g.size < budget) (id : NodeId) :
    g.unfold budget [] id = g.outline id :=
  unfold_eq .nil (by simpa using hbudget) (by simp) id

namespace Mirror

variable {image : NodeId → NodeId} {nodes : Set NodeId} {ref : NodeId → NodeId → Prop}
  {excused : Fault → Prop} {same : Fault → Fault → Prop}
  (h : g.Mirror g' image nodes ref excused same)

include h

/-- Corresponding references are unfolded in lockstep. -/
theorem unfold (budget : Nat) {around around' : List NodeId} {id id' : NodeId} (hid : ref id id')
    (hdistinct : g.Distinct around) (hbudget : g.size < budget + around.length)
    (haround : Images nodes image around around') :
    Lockstep excused same (Outline.Renames nodes image) (g.unfold budget around id)
      (g'.unfold budget around' id') := by
  induction budget generalizing around around' id id' with
  | zero =>
    have := hdistinct.length_le
    omega
  | succ budget ih =>
    refine Lockstep.bind (h.resolve hid) ?_
    rintro ⟨target, shape⟩ ⟨_, shape'⟩ ⟨hmem, hget, rfl, hshape⟩
    have hknown := haround.mem_iff h.injOn hmem
    by_cases hopen : target ∈ around
    · simp only [if_pos hopen, if_pos (hknown.2 hopen)]
      exact .ok (.again hmem)
    · simp only [if_neg hopen, if_neg (mt hknown.1 hopen)]
      have hnext := hdistinct.cons (index_lt_of_get hget) hopen
      refine Lockstep.bind (hshape.mapM_rel (Lockstep.lifting excused same)
        fun _ _ _ href ↦ ih href hnext (by simp; omega) (haround.cons hmem)) ?_
      rintro _ _ ⟨pairs, rfl, rfl, hpairs⟩
      exact .ok (.node hmem pairs hpairs)

/-- Corresponding references have the same text. -/
theorem text {root root' : NodeId} (hroot : ref root root') :
    Lockstep excused same Eq (g.text root) (g'.text root') := by
  have houtline := h.unfold (max g.size g'.size + 1) hroot .nil
    (by rw [List.length_nil]; omega) .nil
  rw [unfold_eq_outline (by omega), unfold_eq_outline (by omega)] at houtline
  exact houtline.bind fun _ _ hrenames ↦ .ok (hrenames.text_eq h.injOn)

end Mirror

end Graph

end JsonPattern
