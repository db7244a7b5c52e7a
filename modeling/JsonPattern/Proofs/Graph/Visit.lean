import JsonPattern.Proofs.Graph.FlattenTest
import Mathlib.Data.List.Infix

/-!
# The visit of a graph

`Graph.Settles` is the run of a visit without a budget. A run that succeeds has settled every duty
of every node that it visited, has visited no node twice, and has visited only nodes that its
duties lead to. Hence the visit of a root lists the nodes with bodies that the root leads to, and
it succeeds where the graph is well-formed.

## Main definitions

* `Graph.Settles` : the run of a visit without a budget.
* `Graph.Settled`, `Graph.NodeSettled` : a duty, or all duties of a node, are settled.
* `Graph.Visited` : the nodes with bodies that a root leads to, each once.

## Main results

* `Graph.settles_visit` : the budget of a visit is enough.
* `Graph.Settles.settled`, `Graph.Settles.reached` : what a run has settled and visited.
* `Graph.Settles.exists_ok`, `Graph.WellFormed.exists_visit` : a visit of what is well-formed
  succeeds.
* `Graph.Visited.mem_iff` : the nodes visited are those with a body that the root leads to.
-/

namespace JsonPattern

namespace Graph

variable (g : Graph) (E : Engine)

/-- The run of a visit on pending duties, when some nodes are visited already. -/
inductive Settles : List Duty → List NodeId → Except Fault (List NodeId) → Prop
  | done (seen : List NodeId) : Settles [] seen (.ok seen)
  | report (fault : Fault) (pending : List Duty) (seen : List NodeId) :
      Settles (.report fault :: pending) seen (.error fault)
  | refused {owner target : NodeId} {pending : List Duty} {seen : List NodeId} {fault : Fault}
      (h : g.testFlatten owner target = .error fault) :
      Settles (.testFlatten owner target :: pending) seen (.error fault)
  | tested {owner target : NodeId} {pending : List Duty} {seen : List NodeId}
      {result : Except Fault (List NodeId)} (h : g.testFlatten owner target = .ok ())
      (rest : Settles pending seen result) :
      Settles (.testFlatten owner target :: pending) seen result
  | astray {id : NodeId} {pending : List Duty} {seen : List NodeId} {fault : Fault}
      (h : g.resolve id = .error fault) : Settles (.visit id :: pending) seen (.error fault)
  | again {id target : NodeId} {shape : Shape NodeId} {pending : List Duty} {seen : List NodeId}
      {result : Except Fault (List NodeId)} (h : g.StandsFor id target shape)
      (hmem : target ∈ seen) (rest : Settles pending seen result) :
      Settles (.visit id :: pending) seen result
  | enter {id target : NodeId} {shape : Shape NodeId} {pending : List Duty} {seen : List NodeId}
      {result : Except Fault (List NodeId)} (h : g.StandsFor id target shape)
      (hnew : target ∉ seen)
      (rest : Settles (shape.duties target E ++ pending) (seen ++ [target]) result) :
      Settles (.visit id :: pending) seen result

/-- Nodes are different from each other and belong to the graph. -/
structure Distinct (nodes : List NodeId) : Prop where
  /-- No node is repeated. -/
  nodup : nodes.Nodup
  /-- Every node has a slot. -/
  index_lt : ∀ id ∈ nodes, id.index < g.size

variable {g E}

theorem Distinct.nil : g.Distinct [] := ⟨List.nodup_nil, by simp⟩

theorem Distinct.length_le {nodes : List NodeId} (h : g.Distinct nodes) :
    nodes.length ≤ g.size :=
  NodeId.length_le_of_nodup h.nodup h.index_lt

theorem Distinct.cons {nodes : List NodeId} (h : g.Distinct nodes) {id : NodeId}
    (hlt : id.index < g.size) (hnew : id ∉ nodes) : g.Distinct (id :: nodes) :=
  ⟨List.nodup_cons.2 ⟨hnew, h.nodup⟩, List.forall_mem_cons.2 ⟨hlt, h.index_lt⟩⟩

theorem Distinct.concat {nodes : List NodeId} (h : g.Distinct nodes) {id target : NodeId}
    {shape : Shape NodeId} (hstands : g.StandsFor id target shape) (hnew : target ∉ nodes) :
    g.Distinct (nodes ++ [target]) := by
  constructor
  · exact List.nodup_append.2 ⟨h.nodup, List.nodup_singleton _, by
      intro a ha b hb e
      exact hnew (List.mem_singleton.1 hb ▸ e ▸ ha)⟩
  · intro x hx
    rcases List.mem_append.1 hx with hx | hx
    · exact h.index_lt x hx
    · exact List.mem_singleton.1 hx ▸ hstands.index_lt

/-- The budget of a visit is enough: whatever is spent goes to a node not visited before. -/
theorem settles_settle {budget : Nat} {pending : List Duty} {seen : List NodeId}
    (hseen : g.Distinct seen) (hbudget : g.size < budget + seen.length) :
    g.Settles E pending seen (g.settle E budget pending seen) := by
  induction budget generalizing pending seen with
  | zero =>
    have := hseen.length_le
    omega
  | succ budget ih =>
    change g.Settles E pending seen (g.settlePending E (g.settle E budget) pending seen)
    induction pending with
    | nil => exact .done seen
    | cons duty pending ihp =>
      cases duty with
      | report fault => exact .report fault pending seen
      | testFlatten owner target =>
        simp only [settlePending]
        split
        · next fault h => exact .refused h
        · next h => exact .tested h ihp
      | visit id =>
        simp only [settlePending]
        split
        · next fault h => exact .astray h
        · next target shape h =>
          have h := resolve_eq_ok_iff.1 h
          split
          · next hmem => exact .again h hmem ihp
          · next hnew => exact .enter h hnew (ih (hseen.concat h hnew) (by simp; omega))

theorem settles_visit (root : NodeId) : g.Settles E [.visit root] [] (g.visit E root) :=
  settles_settle .nil (by simp)

/-- A duty is settled when some nodes are visited. -/
def Settled (g : Graph) (nodes : List NodeId) : Duty → Prop
  | .visit id => ∃ target ∈ nodes, ∃ shape, g.StandsFor id target shape
  | .testFlatten owner target => g.testFlatten owner target = .ok ()
  | .report _ => False

/-- The duties of a node are settled when some nodes are visited. -/
def NodeSettled (g : Graph) (E : Engine) (nodes : List NodeId) (id : NodeId) : Prop :=
  ∃ shape, g.get id = .ok (.body shape) ∧ ∀ duty ∈ shape.duties id E, g.Settled nodes duty

namespace Settles

variable {pending : List Duty} {seen order : List NodeId} {result : Except Fault (List NodeId)}

/-- A run adds nodes behind those visited before. -/
theorem exists_append (h : g.Settles E pending seen result) (hok : result = .ok order) :
    ∃ new, order = seen ++ new := by
  induction h with
  | done seen => exact ⟨[], by cases hok; simp⟩
  | report | refused | astray => cases hok
  | tested _ _ ih | again _ _ _ ih => exact ih hok
  | enter h hnew rest ih =>
    obtain ⟨new, rfl⟩ := ih hok
    exact ⟨_, List.append_assoc _ _ _⟩

theorem subset (h : g.Settles E pending seen result) (hok : result = .ok order) : seen ⊆ order := by
  obtain ⟨new, rfl⟩ := h.exists_append hok
  exact List.subset_append_left _ _

/-- A run visits no node twice. -/
theorem distinct (h : g.Settles E pending seen result) (hok : result = .ok order)
    (hseen : g.Distinct seen) : g.Distinct order := by
  induction h with
  | done seen => cases hok; exact hseen
  | report | refused | astray => cases hok
  | tested _ _ ih | again _ _ _ ih => exact ih hok hseen
  | enter h hnew rest ih => exact ih hok (hseen.concat h hnew)

/-- A run settles its duties and those of the nodes that it visits. -/
theorem settled (h : g.Settles E pending seen result) (hok : result = .ok order) :
    (∀ duty ∈ pending, g.Settled order duty) ∧
      ∀ id ∈ order, id ∈ seen ∨ g.NodeSettled E order id := by
  induction h with
  | done seen => cases hok; exact ⟨by simp, fun id hid ↦ .inl hid⟩
  | report | refused | astray => cases hok
  | tested h rest ih =>
    obtain ⟨hpending, hnodes⟩ := ih hok
    exact ⟨List.forall_mem_cons.2 ⟨h, hpending⟩, hnodes⟩
  | again h hmem rest ih =>
    obtain ⟨hpending, hnodes⟩ := ih hok
    exact ⟨List.forall_mem_cons.2 ⟨⟨_, rest.subset hok hmem, _, h⟩, hpending⟩, hnodes⟩
  | @enter id target shape pending seen result h hnew rest ih =>
    obtain ⟨hpending, hnodes⟩ := ih hok
    have htarget : target ∈ order := rest.subset hok (by simp)
    refine ⟨List.forall_mem_cons.2 ⟨⟨target, htarget, shape, h⟩,
      fun duty hduty ↦ hpending duty (List.mem_append_right _ hduty)⟩, fun x hx ↦ ?_⟩
    rcases hnodes x hx with hseen | hsettled
    · rcases List.mem_append.1 hseen with hseen | hseen
      · exact .inl hseen
      · obtain rfl := List.mem_singleton.1 hseen
        exact .inr ⟨shape, h.get_target, fun duty hduty ↦
          hpending duty (List.mem_append_left _ hduty)⟩
    · exact .inr hsettled

/-- A run visits only what its duties lead to. -/
theorem reached (h : g.Settles E pending seen result) (hok : result = .ok order) {P : NodeId → Prop}
    (hP : ∀ id next, P id → g.Mentions id next → P next)
    (hpending : ∀ id, .visit id ∈ pending → P id) :
    ∀ id ∈ order, id ∈ seen ∨ P id := by
  induction h with
  | done seen => cases hok; exact fun id hid ↦ .inl hid
  | report | refused | astray => cases hok
  | tested h rest ih => exact ih hok fun id hid ↦ hpending id (List.mem_cons_of_mem _ hid)
  | again h hmem rest ih => exact ih hok fun id hid ↦ hpending id (List.mem_cons_of_mem _ hid)
  | @enter id target shape pending seen result h hnew rest ih =>
    have htarget : P target := h.reaches.mem_of_closed hP (hpending id List.mem_cons_self)
    have hduties : ∀ x, .visit x ∈ shape.duties target E ++ pending → P x := by
      intro x hx
      rcases List.mem_append.1 hx with hx | hx
      · exact hP target x htarget ⟨_, h.get_target, Shape.visit_mem_duties.1 hx⟩
      · exact hpending x (List.mem_cons_of_mem _ hx)
    intro x hx
    rcases ih hok hduties x hx with hseen | hx
    · rcases List.mem_append.1 hseen with hseen | hseen
      · exact .inl hseen
      · exact .inr (List.mem_singleton.1 hseen ▸ htarget)
    · exact .inr hx

/-- In a well-formed graph a run on what the root leads to succeeds. -/
theorem exists_ok {root : NodeId} (h : g.Settles E pending seen result)
    (hroot : g.WellFormed E root) (hvisit : ∀ id, .visit id ∈ pending → g.Reaches root id)
    (htest : ∀ owner target, .testFlatten owner target ∈ pending → g.Flattenable target)
    (hreport : ∀ fault, .report fault ∉ pending) : ∃ order, result = .ok order := by
  induction h with
  | done seen => exact ⟨seen, rfl⟩
  | report fault => exact absurd List.mem_cons_self (hreport fault)
  | refused h =>
    rw [testFlatten_of_flattenable (htest _ _ List.mem_cons_self)] at h
    cases h
  | astray h =>
    obtain ⟨target, shape, hstands⟩ := hroot.chains_end _ (hvisit _ List.mem_cons_self)
    rw [hstands.resolve_eq] at h
    cases h
  | tested h rest ih | again h hmem rest ih =>
    exact ih (fun id hid ↦ hvisit id (List.mem_cons_of_mem _ hid))
      (fun owner target hmem ↦ htest owner target (List.mem_cons_of_mem _ hmem))
      fun fault hmem ↦ hreport fault (List.mem_cons_of_mem _ hmem)
  | @enter id target shape pending seen result h hnew rest ih =>
    have hreach : g.Reaches root target := (hvisit id List.mem_cons_self).trans h.reaches
    refine ih (?_) (?_) ?_
    · intro x hx
      rcases List.mem_append.1 hx with hx | hx
      · exact hreach.tail ⟨_, h.get_target, Shape.visit_mem_duties.1 hx⟩
      · exact hvisit x (List.mem_cons_of_mem _ hx)
    · intro owner x hx
      rcases List.mem_append.1 hx with hx | hx
      · obtain ⟨clauses, rfl, -, htarget⟩ := Shape.test_mem_duties.1 hx
        exact hroot.flattenable target hreach clauses h.get_target x htarget
      · exact htest owner x (List.mem_cons_of_mem _ hx)
    · intro fault hx
      rcases List.mem_append.1 hx with hx | hx
      · exact Shape.report_notMem_duties.2 (hroot.proper target hreach shape h.get_target) fault hx
      · exact hreport fault (List.mem_cons_of_mem _ hx)

end Settles

/-- A run has one result. -/
theorem Settles.unique {pending : List Duty} {seen : List NodeId}
    {result result' : Except Fault (List NodeId)} (h : g.Settles E pending seen result)
    (h' : g.Settles E pending seen result') : result = result' := by
  induction h with
  | done | report => cases h'; rfl
  | refused h =>
    cases h' with
    | refused k => rw [h] at k; cases k; rfl
    | tested k => rw [h] at k; cases k
  | tested h rest ih =>
    cases h' with
    | refused k => rw [h] at k; cases k
    | tested _ rest' => exact ih rest'
  | astray h =>
    cases h' with
    | astray k => rw [h] at k; cases k; rfl
    | again k | enter k => rw [k.resolve_eq] at h; cases h
  | again h hmem rest ih =>
    cases h' with
    | astray k => rw [h.resolve_eq] at k; cases k
    | again _ _ rest' => exact ih rest'
    | enter k hnew => exact absurd ((h.unique k).1 ▸ hmem) hnew
  | enter h hnew rest ih =>
    cases h' with
    | astray k => rw [h.resolve_eq] at k; cases k
    | again k hmem => exact absurd ((k.unique h).1 ▸ hmem) hnew
    | enter k _ rest' =>
      obtain ⟨rfl, rfl⟩ := h.unique k
      exact ih rest'

/-- A budget above the number of slots is enough for the visit. -/
theorem settle_eq_visit {budget : Nat} (hbudget : g.size < budget) (root : NodeId) :
    g.settle E budget [.visit root] [] = g.visit E root :=
  (settles_settle .nil (by simpa using hbudget)).unique (settles_visit root)

/-- A list holds the nodes with bodies that a root leads to, each once and with all its duties
settled. -/
structure Visited (g : Graph) (E : Engine) (root : NodeId) (order : List NodeId) : Prop where
  /-- No node is repeated. -/
  distinct : g.Distinct order
  /-- The duties of every node are settled. -/
  settled : ∀ id ∈ order, g.NodeSettled E order id
  /-- What the root stands for is visited. -/
  root_mem : ∃ target ∈ order, ∃ shape, g.StandsFor root target shape
  /-- Nothing else is visited. -/
  reached : ∀ id ∈ order, g.Reaches root id

theorem visited_of_visit {root : NodeId} {order : List NodeId} (h : g.visit E root = .ok order) :
    g.Visited E root order := by
  have hrun := settles_visit (g := g) (E := E) root
  obtain ⟨hpending, hnodes⟩ := hrun.settled h
  refine ⟨hrun.distinct h .nil, fun id hid ↦ (hnodes id hid).resolve_left (by simp),
    hpending _ List.mem_cons_self, fun id hid ↦ ?_⟩
  have hP : ∀ x next, g.Reaches root x → g.Mentions x next → g.Reaches root next :=
    fun _ _ hx hnext ↦ hx.tail hnext
  exact (hrun.reached h hP (by simp [Reaches, Relation.ReflTransGen.refl]) id hid).resolve_left
    (by simp)

/-- The visit of a well-formed graph succeeds. -/
theorem WellFormed.exists_visit {root : NodeId} (h : g.WellFormed E root) :
    ∃ order, g.visit E root = .ok order :=
  (settles_visit root).exists_ok h (by simp [Reaches, Relation.ReflTransGen.refl]) (by simp)
    (by simp)

namespace Visited

variable {root : NodeId} {order : List NodeId}

/-- The duties that the body of a visited node gives it are settled. -/
theorem settled_duties (h : g.Visited E root order) {id : NodeId} (hid : id ∈ order)
    {shape : Shape NodeId} (hget : g.get id = .ok (.body shape)) :
    ∀ duty ∈ shape.duties id E, g.Settled order duty := by
  obtain ⟨shape', hget', hsettled⟩ := h.settled id hid
  obtain rfl : shape = shape' := by simpa [hget] using hget'
  exact hsettled

/-- The body of a visited node is as it must be by itself. -/
theorem proper (h : g.Visited E root order) {id : NodeId} (hid : id ∈ order)
    {shape : Shape NodeId} (hget : g.get id = .ok (.body shape)) : shape.Proper E :=
  Shape.report_notMem_duties.1 fun _ hfault ↦ h.settled_duties hid hget _ hfault

/-- The node that a reference of a visited node stands for is visited. -/
theorem ref_mem (h : g.Visited E root order) {id : NodeId} (hid : id ∈ order)
    {shape : Shape NodeId} (hget : g.get id = .ok (.body shape)) {ref : NodeId}
    (href : ref ∈ shape.refs) : ∃ target ∈ order, ∃ shape', g.StandsFor ref target shape' :=
  h.settled_duties hid hget _ (Shape.visit_mem_duties.2 href)

/-- Everything that the root leads to stands for a visited node. -/
theorem standsFor_of_reaches (h : g.Visited E root order) {id : NodeId}
    (hreach : g.Reaches root id) : ∃ target ∈ order, ∃ shape, g.StandsFor id target shape := by
  refine hreach.mem_of_closed (P := fun id ↦ ∃ target ∈ order, ∃ shape,
    g.StandsFor id target shape) (fun id next hid hnext ↦ ?_) h.root_mem
  obtain ⟨target, hmem, shape, hstands⟩ := hid
  obtain ⟨pattern, hget, hnext⟩ := hnext
  cases pattern with
  | body shape' =>
    obtain rfl : id = target := by
      have hself : g.StandsFor id id shape' := .body hget
      exact (hself.unique hstands).1
    exact h.ref_mem hmem hget hnext
  | cyclic link =>
    obtain rfl : next = link := List.mem_singleton.1 hnext
    exact ⟨target, hmem, shape, hstands.of_link hget⟩

/-- The nodes visited are those with a body that the root leads to. -/
theorem mem_iff (h : g.Visited E root order) {id : NodeId} :
    id ∈ order ↔ g.Reaches root id ∧ ∃ shape, g.get id = .ok (.body shape) := by
  constructor
  · intro hid
    obtain ⟨shape, hget, -⟩ := h.settled id hid
    exact ⟨h.reached id hid, shape, hget⟩
  · rintro ⟨hreach, shape, hget⟩
    obtain ⟨target, hmem, shape', hstands⟩ := h.standsFor_of_reaches hreach
    have hself : g.StandsFor id id shape := .body hget
    exact (hself.unique hstands).1 ▸ hmem

end Visited

end Graph

end JsonPattern
