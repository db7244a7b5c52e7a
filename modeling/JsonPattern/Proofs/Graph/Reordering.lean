import JsonPattern.Proofs.Graph.Compile
import JsonPattern.Proofs.Pattern.Reordering
import JsonPattern.Proofs.Validator.Reordering

/-!
# Graphs with alternatives in another order

A graph is a reordering of another one if every body is, slot by slot. Chains of references end at
the same nodes, the same nodes are reached, and what is asked of a body is asked of it in whatever
order its alternatives stand; so both graphs compile or neither does.
-/

namespace JsonPattern

/-! ### Proper bodies -/

variable {ρ : Type}

theorem Clause.Reordered.isMany_eq {clause other : Clause ρ} (h : clause.Reordered other) :
    other.isMany = clause.isMany := by
  cases clause with
  | optional => obtain ⟨_, rfl, -⟩ := h; rfl
  | oneOf => obtain ⟨_, _, rfl, -⟩ := h; rfl
  | named | many | flatten => obtain rfl := h; rfl

mutual

theorem Clause.Reordered.properGroups : {clause other : Clause ρ} → clause.Reordered other →
    clause.ProperGroups → other.ProperGroups
  | .named _ _, _, rfl, _ => trivial
  | .optional _, _, ⟨_, rfl, hgroup⟩, h => GroupReordered.properClauses hgroup h
  | .many _, _, rfl, _ => trivial
  | .flatten _, _, rfl, _ => trivial
  | .oneOf groups, _, ⟨inOrder, others, rfl, hgroups, hperm⟩, h => by
    refine ⟨fun hnil ↦ h.1 ?_, fun group hgroup ↦
      GroupsReordered.properClauses hgroups h.2 group (hperm.mem_iff.2 hgroup)⟩
    obtain rfl : inOrder = [] := List.perm_nil.1 (hnil ▸ hperm)
    exact List.forall₂_nil_right_iff.1 (groupsReordered_iff.1 hgroups)

theorem GroupReordered.properClauses : {group other : List (Clause ρ)} →
    GroupReordered group other → ProperClauses group → ProperClauses other
  | [], _, rfl, _ => properClauses_nil
  | _ :: group, _, ⟨_, _, rfl, hclause, hgroup⟩, h => by
    obtain ⟨hmany, hproper, hrest⟩ := properClauses_cons_iff.1 h
    refine properClauses_cons_iff.2 ⟨fun hother ↦ ?_, Clause.Reordered.properGroups hclause hproper,
      GroupReordered.properClauses hgroup hrest⟩
    obtain rfl : group = [] := hmany (hclause.isMany_eq ▸ hother)
    exact hgroup

theorem GroupsReordered.properClauses : {groups others : List (List (Clause ρ))} →
    GroupsReordered groups others → (∀ group ∈ groups, ProperClauses group) →
    ∀ group ∈ others, ProperClauses group
  | [], _, rfl, _ => fun _ hgroup ↦ absurd hgroup List.not_mem_nil
  | _ :: _, _, ⟨_, _, rfl, hgroup, hgroups⟩, h => List.forall_mem_cons.2
      ⟨GroupReordered.properClauses hgroup (h _ List.mem_cons_self),
        GroupsReordered.properClauses hgroups fun group hmem ↦
          h group (List.mem_cons_of_mem _ hmem)⟩

end

theorem Shape.Reordered.proper {E : Engine} {shape other : Shape ρ} (h : shape.Reordered other)
    (hproper : shape.Proper E) : other.Proper E := by
  cases shape with
  | object => obtain ⟨_, rfl, h⟩ := h; exact GroupReordered.properClauses h hproper
  | oneOf => obtain ⟨_, rfl, h⟩ := h; exact fun hnil ↦ hproper (List.perm_nil.1 (hnil ▸ h))
  | literal | type | regex | arrayOf | anything => obtain rfl := h; exact hproper

/-! ### Graphs -/

/-- A pattern with its alternatives, or the groups of any of its alternations, in another order. -/
def Pattern.Reordered : Pattern → Pattern → Prop
  | .body shape, q => ∃ other, q = .body other ∧ shape.Reordered other
  | .cyclic target, q => q = .cyclic target

theorem Pattern.Reordered.symm {p q : Pattern} (h : p.Reordered q) : q.Reordered p := by
  cases p with
  | body => obtain ⟨_, rfl, h⟩ := h; exact ⟨_, rfl, h.symm⟩
  | cyclic => obtain rfl := h; rfl

namespace Graph

/-- A graph with the alternatives of its bodies, or the groups of any of their alternations, in
another order. Slots that are reserved stay so. -/
def Reordered (g g' : Graph) : Prop :=
  List.Forall₂ (Option.Rel Pattern.Reordered) g.slots.toList g'.slots.toList

namespace Reordered

variable {g g' : Graph} {E : Engine} (h : g.Reordered g')

include h

theorem size_eq : g'.size = g.size := by
  simpa [size] using h.length_eq.symm

theorem symm : g'.Reordered g :=
  List.Forall₂.flip (h.imp fun a b hab ↦ by
    cases hab with
    | none => exact .none
    | some hab => exact .some hab.symm)

/-- The same slot is looked up in both graphs. -/
theorem slot_rel (i : Nat) :
    Option.Rel (Option.Rel Pattern.Reordered) g.slots[i]? g'.slots[i]? := by
  rw [← Array.getElem?_toList, ← Array.getElem?_toList]
  unfold Reordered at h
  generalize g.slots.toList = slots at h ⊢
  generalize g'.slots.toList = slots' at h ⊢
  induction h generalizing i with
  | nil => exact .none
  | cons hab _ ih =>
    cases i with
    | zero => exact .some hab
    | succ i => exact ih i

theorem get_error {id : NodeId} {fault : Fault} (hget : g.get id = .error fault) :
    g'.get id = .error fault := by
  have hslot := h.slot_rel id.index
  rw [get] at hget ⊢
  generalize g.slots[id.index]? = slot at hslot hget
  generalize g'.slots[id.index]? = slot' at hslot ⊢
  cases hslot with
  | none => exact hget
  | some hslot =>
    cases hslot with
    | none => exact hget
    | some => cases hget

theorem get_ok {id : NodeId} {pattern : Pattern} (hget : g.get id = .ok pattern) :
    ∃ other, g'.get id = .ok other ∧ pattern.Reordered other := by
  have hslot := h.slot_rel id.index
  simp only [get] at hget ⊢
  generalize g.slots[id.index]? = slot at hslot hget
  generalize g'.slots[id.index]? = slot' at hslot ⊢
  cases hslot with
  | none => cases hget
  | some hslot =>
    cases hslot with
    | none => cases hget
    | some hslot => exact ⟨_, rfl, Except.ok.inj hget ▸ hslot⟩

theorem get_body {id : NodeId} {shape : Shape NodeId} (hget : g.get id = .ok (.body shape)) :
    ∃ other, g'.get id = .ok (.body other) ∧ shape.Reordered other := by
  obtain ⟨_, hget', other, rfl, hother⟩ := h.get_ok hget
  exact ⟨other, hget', hother⟩

theorem get_cyclic {id target : NodeId} (hget : g.get id = .ok (.cyclic target)) :
    g'.get id = .ok (.cyclic target) := by
  obtain ⟨_, hget', rfl⟩ := h.get_ok hget
  exact hget'

/-! ### What ids stand for -/

theorem follow_cases (origin : NodeId) (budget : Nat) (id : NodeId) :
    (∃ fault, g.follow origin budget id = .error fault ∧
      g'.follow origin budget id = .error fault) ∨
    ∃ target shape other, g.follow origin budget id = .ok (target, shape) ∧
      g'.follow origin budget id = .ok (target, other) ∧ shape.Reordered other := by
  induction budget generalizing id with
  | zero => exact .inl ⟨_, rfl, rfl⟩
  | succ budget ih =>
    rw [follow, follow]
    cases hget : g.get id with
    | error fault =>
      rw [h.get_error hget]
      exact .inl ⟨fault, rfl, rfl⟩
    | ok pattern =>
      cases pattern with
      | body shape =>
        obtain ⟨other, hget', hother⟩ := h.get_body hget
        rw [hget']
        exact .inr ⟨id, shape, other, rfl, rfl, hother⟩
      | cyclic target =>
        rw [h.get_cyclic hget]
        exact ih target

theorem resolve_cases (id : NodeId) :
    (∃ fault, g.resolve id = .error fault ∧ g'.resolve id = .error fault) ∨
    ∃ target shape other, g.resolve id = .ok (target, shape) ∧
      g'.resolve id = .ok (target, other) ∧ shape.Reordered other := by
  rw [resolve, resolve, h.size_eq]
  exact h.follow_cases id (g.size + 1) id

theorem resolved_eq (id : NodeId) : g.resolved id = g'.resolved id := by
  rw [resolved, resolved]
  rcases h.resolve_cases id with ⟨fault, hresolve, hresolve'⟩ |
    ⟨target, shape, other, hresolve, hresolve', -⟩
  · rw [hresolve, hresolve']
  · rw [hresolve, hresolve']

theorem shape_reordered (id : NodeId) : (g.shape id).Reordered (g'.shape id) := by
  rw [shape, shape]
  rcases h.resolve_cases id with ⟨fault, hresolve, hresolve'⟩ |
    ⟨target, shape, other, hresolve, hresolve', hother⟩
  · rw [hresolve, hresolve']
    rfl
  · rw [hresolve, hresolve']
    exact hother

/-- The tables of both graphs are reorderings of each other. -/
theorem table_reordered : (g.table E).Reordered (g'.table E) where
  hops_eq := h.size_eq
  check id := by
    change Check.Reordered ((((g.shape id).check? E).getD .anything).map g.resolved)
      ((((g'.shape id).check? E).getD .anything).map g'.resolved)
    rw [← funext h.resolved_eq]
    exact (h.shape_reordered id).check E g.resolved

theorem standsFor {id target : NodeId} {shape : Shape NodeId}
    (hstands : g.StandsFor id target shape) :
    ∃ other, g'.StandsFor id target other ∧ shape.Reordered other := by
  rcases h.resolve_cases id with ⟨fault, hresolve, -⟩ |
    ⟨target', shape', other, hresolve, hresolve', hother⟩
  · rw [hstands.resolve_eq] at hresolve
    cases hresolve
  · rw [hstands.resolve_eq] at hresolve
    cases hresolve
    exact ⟨other, resolve_eq_ok_iff.1 hresolve', hother⟩

/-! ### Well-formed graphs -/

theorem mentions {id next : NodeId} (hmentions : g.Mentions id next) : g'.Mentions id next := by
  obtain ⟨pattern, hget, hnext⟩ := hmentions
  cases pattern with
  | body shape =>
    obtain ⟨other, hget', hother⟩ := h.get_body hget
    exact ⟨_, hget', hother.refs_perm.mem_iff.1 hnext⟩
  | cyclic target => exact ⟨_, h.get_cyclic hget, hnext⟩

theorem reaches {id next : NodeId} (hreaches : g.Reaches id next) : g'.Reaches id next :=
  Relation.ReflTransGen.mono (fun _ _ ↦ h.mentions) _ _ hreaches

theorem unguarded {id next : NodeId} (hunguarded : g.Unguarded id next) : g'.Unguarded id next := by
  obtain ⟨shape, hget, ref, href, shape', hstands⟩ := hunguarded
  obtain ⟨other, hget', hother⟩ := h.get_body hget
  obtain ⟨other', hstands', -⟩ := h.standsFor hstands
  exact ⟨other, hget', ref, hother.unguardedRefs_perm.mem_iff.1 href, other', hstands'⟩

theorem flattenable {id : NodeId} (hflattenable : g.Flattenable id) : g'.Flattenable id := by
  induction hflattenable with
  | object hstands =>
    obtain ⟨_, hstands', others, rfl, -⟩ := h.standsFor hstands
    exact .object hstands'
  | oneOf hstands _ ih =>
    obtain ⟨_, hstands', others, rfl, hperm⟩ := h.standsFor hstands
    exact .oneOf hstands' fun alternative hmem ↦ ih alternative (hperm.mem_iff.2 hmem)

theorem wellFormed {root : NodeId} (hwell : g.WellFormed E root) : g'.WellFormed E root := by
  have hback : ∀ id, g'.Reaches root id → g.Reaches root id := fun _ ↦ h.symm.reaches
  constructor
  case filled =>
    intro id hid
    obtain ⟨pattern, hget⟩ := hwell.filled id (hback id hid)
    obtain ⟨other, hget', -⟩ := h.get_ok hget
    exact ⟨other, hget'⟩
  case chains_end =>
    intro id hid
    obtain ⟨target, shape, hstands⟩ := hwell.chains_end id (hback id hid)
    obtain ⟨other, hstands', -⟩ := h.standsFor hstands
    exact ⟨target, other, hstands'⟩
  case proper =>
    intro id hid shape hget
    obtain ⟨other, hget', hother⟩ := h.symm.get_body hget
    exact hother.symm.proper (hwell.proper id (hback id hid) other hget')
  case flattenable =>
    intro id hid clauses hget target htarget
    obtain ⟨_, hget', others, rfl, hothers⟩ := h.symm.get_body hget
    have hmem := (GroupReordered.flattenTargets_perm hothers).mem_iff.1 htarget
    exact h.flattenable (hwell.flattenable id (hback id hid) others hget' target hmem)
  case acyclic =>
    intro id hid hcycle
    exact hwell.acyclic id (hback id hid)
      (Relation.TransGen.mono (fun _ _ ↦ h.symm.unguarded) _ _ hcycle)

/-- Both graphs compile, or neither does. -/
theorem exists_compile {root : NodeId} (hcompile : ∃ V, g.compileWith E root = .ok V) :
    ∃ V, g'.compileWith E root = .ok V := by
  obtain ⟨V, hV⟩ := hcompile
  obtain ⟨order, rank, -, hcompiled, -⟩ := exists_compiled hV
  exact (h.wellFormed hcompiled.wellFormed).exists_compile

end Reordered

end Graph

end JsonPattern
