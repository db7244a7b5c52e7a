import JsonPattern.Proofs.Graph.Compile
import JsonPattern.Proofs.Images
import JsonPattern.Proofs.Pattern.Pairs

/-!
# Graphs that mirror each other

One graph mirrors another if references of the one correspond to references of the other, and
corresponding references stand for a node and its image, whose bodies have corresponding
references. Every walk through the first graph is then accompanied by a walk through the second
one, which meets the images of the same nodes in the same order: the test of flatten targets, the
visit and the search for cycles. Slots are given in the order of the visit, so the validators are
the same.

What a walk reports may differ between the graphs. Which faults correspond to each other is a
parameter, and so is which faults of the first graph excuse the second one.

## Main definitions

* `Duty.Mirrors` : duties of a node and of its image that correspond to each other.
* `Graph.Mirror` : a graph mirrors another one.

## Main results

* `Shape.Relates.mirrors_duties` : bodies with corresponding references have corresponding duties.
* `Graph.Mirror.testFlatten`, `Graph.Mirror.visit` : the walks run in lockstep.
* `Graph.Mirror.checks_eq` : the same checks are made.
* `Graph.Mirror.compile` : corresponding references are compiled to the same validator.
-/

namespace JsonPattern

/-! ### Faults and duties -/

/-- A defect, with another name for the node that it mentions. -/
def Defect.rename (f : NodeId → NodeId) : Defect → Defect
  | .invalidFlatten target => .invalidFlatten (f target)
  | defect => defect

/-- A fault, with other names for nodes. -/
def Fault.rename (f : NodeId → NodeId) (fault : Fault) : Fault :=
  ⟨f fault.node, fault.defect.rename f⟩

section Duties

variable (image : NodeId → NodeId) (ref : NodeId → NodeId → Prop) (same : Fault → Fault → Prop)

/-- Duties of a node and of its image that correspond to each other. -/
inductive Duty.Mirrors : Duty → Duty → Prop
  | visit {id id' : NodeId} (h : ref id id') : Mirrors (.visit id) (.visit id')
  | testFlatten (owner : NodeId) {target target' : NodeId} (h : ref target target') :
      Mirrors (.testFlatten owner target) (.testFlatten (image owner) target')
  | report {fault fault' : Fault} (h : same fault fault') :
      Mirrors (.report fault) (.report fault')

theorem Clause.isMany_map {ρ σ : Type} (f : ρ → σ) (clause : Clause ρ) :
    (clause.map f).isMany = clause.isMany := by
  cases clause <;> rfl

variable {image ref same}

/-- A report that is made of a node or of its image under the same condition. -/
theorem mirrors_report {owner : NodeId} {defect : Defect} {b b' : Bool} (hb : b = b')
    (hsame : same ⟨owner, defect⟩ ⟨image owner, defect⟩) :
    List.Forall₂ (Duty.Mirrors image ref same)
      (if b then [.report ⟨owner, defect⟩] else [])
      (if b' then [.report ⟨image owner, defect⟩] else []) := by
  subst hb
  cases b with
  | false => exact .nil
  | true => exact .cons (.report hsame) .nil

variable {owner : NodeId}

mutual

theorem Clause.mirrors_duties
    (hsame : ∀ fault : Fault, same fault (fault.rename image)) :
    (pairs : Clause (NodeId × NodeId)) →
    (∀ p ∈ pairs.refs, ref p.1 p.2) → List.Forall₂ (Duty.Mirrors image ref same)
      ((pairs.map Prod.fst).duties owner) ((pairs.map Prod.snd).duties (image owner))
  | .named _ _, h => .cons (.visit (h _ List.mem_cons_self)) .nil
  | .optional pairs, h => mirrors_groupDuties hsame pairs h
  | .many _, h => .cons (.visit (h _ List.mem_cons_self)) .nil
  | .flatten _, h =>
    have h := h _ List.mem_cons_self
    .cons (.testFlatten owner h) (.cons (.visit h) .nil)
  | .oneOf [], _ => .cons (.report (hsame ⟨owner, .noGroups⟩)) .nil
  | .oneOf (pair :: pairs), h => mirrors_groupsDuties hsame (pair :: pairs) h

theorem mirrors_groupDuties
    (hsame : ∀ fault : Fault, same fault (fault.rename image)) :
    (pairs : List (Clause (NodeId × NodeId))) →
    (∀ p ∈ groupRefs pairs, ref p.1 p.2) → List.Forall₂ (Duty.Mirrors image ref same)
      (groupDuties owner (groupMap Prod.fst pairs))
      (groupDuties (image owner) (groupMap Prod.snd pairs))
  | [], _ => .nil
  | pair :: pairs, h => by
    obtain ⟨hpair, hpairs⟩ := List.forall_mem_append.1 h
    refine List.rel_append (List.rel_append (mirrors_report ?_ (hsame ⟨owner, .misplacedMany⟩))
      (Clause.mirrors_duties hsame pair hpair)) (mirrors_groupDuties hsame pairs hpairs)
    rw [Clause.isMany_map, Clause.isMany_map, groupMap_eq_map, groupMap_eq_map, List.isEmpty_map,
      List.isEmpty_map]

theorem mirrors_groupsDuties
    (hsame : ∀ fault : Fault, same fault (fault.rename image)) :
    (pairs : List (List (Clause (NodeId × NodeId)))) →
    (∀ p ∈ groupsRefs pairs, ref p.1 p.2) → List.Forall₂ (Duty.Mirrors image ref same)
      (groupsDuties owner (groupsMap Prod.fst pairs))
      (groupsDuties (image owner) (groupsMap Prod.snd pairs))
  | [], _ => .nil
  | pair :: pairs, h => by
    obtain ⟨hpair, hpairs⟩ := List.forall_mem_append.1 h
    exact List.rel_append (mirrors_groupDuties hsame pair hpair)
      (mirrors_groupsDuties hsame pairs hpairs)

end

/-- Bodies with corresponding references have corresponding duties. -/
theorem Shape.Relates.mirrors_duties (E : Engine)
    (hsame : ∀ fault : Fault, same fault (fault.rename image)) {shape shape' : Shape NodeId}
    (h : shape.Relates ref shape') :
    List.Forall₂ (Duty.Mirrors image ref same) (shape.duties owner E)
      (shape'.duties (image owner) E) := by
  obtain ⟨pairs, rfl, rfl, hpairs⟩ := h
  cases pairs with
  | literal value =>
    simp only [Shape.map, duties]
    by_cases hscalar : value.isScalar
    · rw [if_pos hscalar, if_pos hscalar]
      exact .nil
    · rw [if_neg hscalar, if_neg hscalar]
      exact .cons (.report (hsame ⟨owner, .nonScalarLiteral value⟩)) .nil
  | regex source =>
    simp only [Shape.map, duties]
    cases E.read source with
    | ok matcher => exact .nil
    | error explanation =>
      exact .cons (.report (hsame ⟨owner, .invalidRegex source explanation⟩)) .nil
  | type | anything => exact .nil
  | arrayOf element => exact .cons (.visit (hpairs _ List.mem_cons_self)) .nil
  | object pairs => exact mirrors_groupDuties hsame pairs hpairs
  | oneOf pairs =>
    cases pairs with
    | nil => exact .cons (.report (hsame ⟨owner, .noAlternatives⟩)) .nil
    | cons pair pairs =>
      have hvisits := forall₂_of_pairs (R := ref) hpairs
      refine List.forall₂_map_left_iff.2 (List.forall₂_map_right_iff.2 ?_)
      exact hvisits.imp fun _ _ ↦ .visit

end Duties

/-! ### Mirrors -/

namespace Graph

/-- A graph mirrors another one: its references correspond to references of the other one, and its
nodes of a set have images in the other one. -/
structure Mirror (g g' : Graph) (image : NodeId → NodeId) (nodes : Set NodeId)
    (ref : NodeId → NodeId → Prop) (excused : Fault → Prop) (same : Fault → Fault → Prop) :
    Prop where
  /-- Different nodes have different images. -/
  injOn : Set.InjOn image nodes
  /-- If a reference stands for a node, the corresponding one stands for the image. -/
  stands : ∀ id id', ref id id' → ∀ target shape, g.StandsFor id target shape →
    target ∈ nodes ∧ ∃ shape', g'.StandsFor id' (image target) shape'
  /-- If a reference stands for no node, it is excused, or neither does the corresponding one. -/
  astray : ∀ id id', ref id id' → ∀ fault, g.resolve id = .error fault →
    excused fault ∨ ∃ fault', g'.resolve id' = .error fault' ∧ same fault fault'
  /-- The bodies of a node and of its image have corresponding references. -/
  body : ∀ target ∈ nodes, ∀ shape, g.get target = .ok (.body shape) →
    ∃ shape', g'.get (image target) = .ok (.body shape') ∧ shape.Relates ref shape'
  /-- A fault corresponds to the same fault of the image. -/
  same_rename : ∀ fault, same fault (fault.rename image)

/-! ### Steps of the walks -/

section Steps

variable (g : Graph)

/-- A pending target is resolved first, and what is found decides on the rest. -/
theorem testPending_cons (owner : NodeId)
    (openNext : List NodeId → List NodeId → Except Fault Unit) (id : NodeId)
    (pending seen : List NodeId) :
    g.testPending owner openNext (id :: pending) seen = g.resolve id >>= fun found ↦
      if found.1 ∈ seen then g.testPending owner openNext pending seen
      else
        match found.2 with
        | .object _ => g.testPending owner openNext pending (found.1 :: seen)
        | .oneOf alternatives => openNext (alternatives.reverse ++ pending) (found.1 :: seen)
        | _ => .error ⟨owner, .invalidFlatten found.1⟩ := by
  rw [testPending]
  cases g.resolve id <;> rfl

variable (E : Engine) (openNext : List Duty → List NodeId → Except Fault (List NodeId))
  (pending : List Duty) (seen : List NodeId)

/-- A flatten target is tested, and then the rest is settled. -/
theorem settlePending_test (owner target : NodeId) :
    g.settlePending E openNext (.testFlatten owner target :: pending) seen =
      g.testFlatten owner target >>= fun _ ↦ g.settlePending E openNext pending seen := by
  rw [settlePending]
  cases g.testFlatten owner target <;> rfl

/-- A node is resolved, and unless it is visited already, its duties come first. -/
theorem settlePending_visit (id : NodeId) :
    g.settlePending E openNext (.visit id :: pending) seen = g.resolve id >>= fun found ↦
      if found.1 ∈ seen then g.settlePending E openNext pending seen
      else openNext (found.2.duties found.1 E ++ pending) (seen ++ [found.1]) := by
  rw [settlePending]
  cases g.resolve id <;> rfl

/-- A validator is made of what is visited, after a search for cycles. -/
theorem compile_eq (root : NodeId) : g.compileWith E root = g.visit E root >>= fun order ↦
    match searchAll g.unguarded order.length order with
    | .error id => .error ⟨id, .unguardedCycle⟩
    | .ok _ => .ok ⟨(g.checks E order).toArray, g.slot order root⟩ := by
  rw [compileWith]
  cases g.visit E root <;> rfl

end Steps

namespace Mirror

variable {g g' : Graph} {E : Engine} {image : NodeId → NodeId} {nodes : Set NodeId}
  {ref : NodeId → NodeId → Prop} {excused : Fault → Prop} {same : Fault → Fault → Prop}
  (h : g.Mirror g' image nodes ref excused same)

include h

/-- Corresponding references are resolved in lockstep. -/
theorem resolve {id id' : NodeId} (hid : ref id id') :
    Lockstep excused same
      (fun x y ↦ x.1 ∈ nodes ∧ g.get x.1 = .ok (.body x.2) ∧ y.1 = image x.1 ∧
        x.2.Relates ref y.2)
      (g.resolve id) (g'.resolve id') := by
  rcases hresolve : g.resolve id with fault | ⟨target, shape⟩
  · rcases h.astray id id' hid fault hresolve with hexcused | ⟨fault', hresolve', hsame⟩
    · exact .excused hexcused _
    · exact hresolve' ▸ .error hsame
  · have hstands := resolve_eq_ok_iff.1 hresolve
    obtain ⟨hmem, shape', hstands'⟩ := h.stands id id' hid target shape hstands
    obtain ⟨shape'', hget, hshape⟩ := h.body target hmem shape hstands.get_target
    rw [(hstands'.congr_shape hget).resolve_eq]
    exact .ok ⟨hmem, hstands.get_target, rfl, hshape⟩

/-- Flatten targets are tested in lockstep. -/
theorem testTargets (owner : NodeId) (budget : Nat) {pending pending' seen seen' : List NodeId}
    (hpending : List.Forall₂ ref pending pending') (hseen : Images nodes image seen seen') :
    Lockstep excused same (fun _ _ ↦ True) (g.testTargets owner budget pending seen)
      (g'.testTargets (image owner) budget pending' seen') := by
  induction budget generalizing pending pending' seen seen' with
  | zero => exact .ok trivial
  | succ budget ih =>
    change Lockstep excused same (fun _ _ ↦ True)
      (g.testPending owner (g.testTargets owner budget) pending seen)
      (g'.testPending (image owner) (g'.testTargets (image owner) budget) pending' seen')
    induction hpending generalizing seen seen' with
    | nil => exact .ok trivial
    | @cons id id' pending pending' hid hpending ihp =>
      rw [testPending_cons, testPending_cons]
      refine (h.resolve hid).bind ?_
      rintro ⟨target, shape⟩ ⟨_, shape'⟩ ⟨hmem, -, rfl, pairs, rfl, rfl, hpairs⟩
      have hknown := hseen.mem_iff h.injOn hmem
      by_cases hold : target ∈ seen
      · simp only [if_pos hold, if_pos (hknown.2 hold)]
        exact ihp hseen
      · simp only [if_neg hold, if_neg (mt hknown.1 hold)]
        cases pairs with
        | object pairs => exact ihp (hseen.cons hmem)
        | oneOf pairs =>
          have halternatives := forall₂_of_pairs (R := ref) hpairs
          exact ih (List.rel_append (List.rel_reverse halternatives) hpending) (hseen.cons hmem)
        | literal | type | regex | arrayOf | anything =>
          exact .error (h.same_rename ⟨owner, .invalidFlatten target⟩)

theorem testFlatten (owner : NodeId) {target target' : NodeId} (htarget : ref target target') :
    Lockstep excused same (fun _ _ ↦ True) (g.testFlatten owner target)
      (g'.testFlatten (image owner) target') := by
  have hrun := h.testTargets owner (max g.size g'.size + 1) (.cons htarget .nil) .nil
  rwa [testTargets_eq_testFlatten (by omega), testTargets_eq_testFlatten (by omega)] at hrun

/-- Duties are settled in lockstep. -/
theorem settle (budget : Nat) {pending pending' : List Duty} {seen seen' : List NodeId}
    (hpending : List.Forall₂ (Duty.Mirrors image ref same) pending pending')
    (hseen : Images nodes image seen seen') :
    Lockstep excused same (Images nodes image) (g.settle E budget pending seen)
      (g'.settle E budget pending' seen') := by
  induction budget generalizing pending pending' seen seen' with
  | zero => exact .ok hseen
  | succ budget ih =>
    change Lockstep excused same (Images nodes image)
      (g.settlePending E (g.settle E budget) pending seen)
      (g'.settlePending E (g'.settle E budget) pending' seen')
    induction hpending with
    | nil => exact .ok hseen
    | @cons duty duty' pending pending' hduty hpending ihp =>
      cases hduty with
      | report hsame => exact .error hsame
      | testFlatten owner htarget =>
        rw [settlePending_test, settlePending_test]
        exact (h.testFlatten owner htarget).bind fun _ _ _ ↦ ihp
      | visit hid =>
        rw [settlePending_visit, settlePending_visit]
        refine (h.resolve hid).bind ?_
        rintro ⟨target, shape⟩ ⟨_, shape'⟩ ⟨hmem, -, rfl, hshape⟩
        have hknown := hseen.mem_iff h.injOn hmem
        by_cases hold : target ∈ seen
        · simp only [if_pos hold, if_pos (hknown.2 hold)]
          exact ihp
        · simp only [if_neg hold, if_neg (mt hknown.1 hold)]
          exact ih (List.rel_append (hshape.mirrors_duties E h.same_rename) hpending)
            (hseen.concat hmem)

/-- Corresponding references are visited in lockstep. -/
theorem visit {root root' : NodeId} (hroot : ref root root') :
    Lockstep excused same (Images nodes image) (g.visit E root) (g'.visit E root') := by
  have hrun := h.settle (E := E) (max g.size g'.size + 1) (.cons (.visit hroot) .nil) .nil
  rwa [settle_eq_visit (by omega), settle_eq_visit (by omega)] at hrun

/-! ### Validators -/

variable {root : NodeId} {order order' : List NodeId}

/-- What corresponding references stand for, where the first is one that the visit has met. -/
theorem resolved_eq {id id' : NodeId} (hid : ref id id')
    (hmet : ∃ target ∈ order, ∃ shape, g.StandsFor id target shape) :
    g.resolved id ∈ order ∧ g'.resolved id' = image (g.resolved id) := by
  obtain ⟨target, hmem, shape, hstands⟩ := hmet
  obtain ⟨-, shape', hstands'⟩ := h.stands id id' hid target shape hstands
  rw [hstands.resolved_eq, hstands'.resolved_eq]
  exact ⟨hmem, rfl⟩

variable (himages : Images nodes image order order')

include himages

/-- Corresponding references that stand for nodes visited have the same slot. -/
theorem slot_eq {id id' : NodeId} (hmem : g.resolved id ∈ order)
    (hid : g'.resolved id' = image (g.resolved id)) : g.slot order id = g'.slot order' id' := by
  rw [slot, slot, hid]
  exact (himages.idxOf_eq h.injOn (himages.1 _ hmem)).symm

variable (hvisited : g.Visited E root order)

include hvisited

/-- The image of a node visited has a body in which references stand for images. -/
theorem exists_body {target : NodeId} (hmem : target ∈ order) :
    ∃ shape shape', g.get target = .ok (.body shape) ∧ g'.get (image target) = .ok (.body shape') ∧
      shape.Relates
        (fun id id' ↦ g.resolved id ∈ order ∧ g'.resolved id' = image (g.resolved id)) shape' := by
  obtain ⟨shape, hget, -⟩ := hvisited.settled target hmem
  obtain ⟨shape', hget', hshape⟩ := h.body target (himages.1 target hmem) shape hget
  refine ⟨shape, shape', hget, hget', hshape.mono fun id id' hid hrefs ↦ ?_⟩
  exact h.resolved_eq hrefs (hvisited.ref_mem hmem hget hid)

/-- Without descending into the value, the image of a node leads to images of what the node leads
to. -/
theorem unguarded_images {target : NodeId} (hmem : target ∈ order) :
    Images {id | id ∈ order} image (g.unguarded target) (g'.unguarded (image target)) := by
  obtain ⟨shape, shape', hget, hget', hshape⟩ := h.exists_body himages hvisited hmem
  constructor
  · intro next hnext
    exact hvisited.unguarded_mem hmem ((hvisited.mem_unguarded_iff hmem).1 hnext)
  · rw [unguarded, unguarded, shape_eq_of_get hget, shape_eq_of_get hget', List.map_map]
    exact (hshape.unguardedRefs_map_eq fun _ _ hid ↦ hid.2.symm).symm

/-- The same checks are made. -/
theorem checks_eq : g.checks E order = g'.checks E order' := by
  rw [checks, checks, himages.2, List.map_map]
  refine List.map_congr_left fun target hmem ↦ ?_
  obtain ⟨shape, shape', hget, hget', hshape⟩ := h.exists_body himages hvisited hmem
  change ((g.table E).check target).map (g.slot order) =
    ((g'.table E).check (image target)).map (g'.slot (order.map image))
  rw [map_slot_check hget, map_slot_check hget', ← himages.2]
  exact hshape.check_map_eq fun id id' hid ↦ h.slot_eq himages hid.1 hid.2

omit himages hvisited in
/-- Corresponding references are compiled in lockstep, to the same validator. -/
theorem compile {root root' : NodeId} (hroot : ref root root') :
    Lockstep excused same Eq (g.compileWith E root) (g'.compileWith E root') := by
  rw [compile_eq, compile_eq]
  refine (h.visit hroot).of_result.bind ?_
  rintro order order' ⟨horder, himages⟩
  have hvisited := visited_of_visit horder
  have hstarts : Images {id | id ∈ order} image order order' := ⟨fun _ hid ↦ hid, himages.2⟩
  have hsearch := searchAll_lockstep (h.injOn.mono himages.1)
    (fun target hmem ↦ h.unguarded_images himages hvisited hmem) order.length hstarts
  have hlength : order'.length = order.length := by rw [himages.2, List.length_map]
  rw [hlength]
  generalize searchAll g.unguarded order.length order = found at hsearch ⊢
  generalize searchAll g'.unguarded order.length order' = found' at hsearch ⊢
  cases hsearch with
  | @error id _ hname =>
    obtain rfl := hname
    exact .error (h.same_rename ⟨id, .unguardedCycle⟩)
  | excused hexcused => exact hexcused.elim
  | ok =>
    obtain ⟨hmem, hid⟩ := h.resolved_eq hroot hvisited.root_mem
    refine .ok ?_
    rw [h.checks_eq himages hvisited, h.slot_eq himages hmem hid]

end Mirror

end Graph

end JsonPattern
