import JsonPattern.Proofs.Graph.Visit

/-!
# Depth-first preorder

`Graph.DepthFirst` is the depth-first walk through a graph as it is told by recursion: a node is
entered when it is first met, then its references are walked in declared order, and only then what
comes after the node. Cyclic references are no nodes of the walk. A visit settles duties from a
single list and tests flatten targets on the way; the nodes that it visits are nevertheless those
of the walk, in the same order.
-/

namespace JsonPattern

/-- The node that is visited by a duty. -/
def Duty.visit? : Duty → Option NodeId
  | .visit id => some id
  | _ => none

/-! ### The visits among duties -/

section Visits

variable {E : Engine} (owner : NodeId)

mutual

theorem Clause.visits_duties : (clause : Clause NodeId) →
    (clause.duties owner).filterMap Duty.visit? = clause.refs
  | .named _ _ => rfl
  | .optional group => visits_groupDuties group
  | .many _ => rfl
  | .flatten _ => rfl
  | .oneOf groups => by
    have hgroups := visits_groupsDuties groups
    cases groups with
    | nil => rfl
    | cons group groups => exact hgroups

theorem visits_groupDuties : (group : List (Clause NodeId)) →
    (groupDuties owner group).filterMap Duty.visit? = groupRefs group
  | [] => rfl
  | clause :: group => by
    have hreport : (if clause.isMany && !group.isEmpty then
        [Duty.report ⟨owner, .misplacedMany⟩] else []).filterMap Duty.visit? = [] := by
      split <;> rfl
    rw [groupDuties, groupRefs, List.filterMap_append, List.filterMap_append, hreport,
      List.nil_append, clause.visits_duties, visits_groupDuties group]

theorem visits_groupsDuties : (groups : List (List (Clause NodeId))) →
    (groupsDuties owner groups).filterMap Duty.visit? = groupsRefs groups
  | [] => rfl
  | group :: groups => by
    rw [groupsDuties, groupsRefs, List.filterMap_append, visits_groupDuties group,
      visits_groupsDuties groups]

end

/-- A node visits its references in declared order. -/
theorem Shape.visits_duties (shape : Shape NodeId) :
    (shape.duties owner E).filterMap Duty.visit? = shape.refs := by
  cases shape with
  | literal value => simp only [duties, refs]; split <;> rfl
  | regex source => simp only [duties, refs]; split <;> rfl
  | type | anything | arrayOf => rfl
  | object clauses => exact visits_groupDuties owner clauses
  | oneOf alternatives =>
    cases alternatives with
    | nil => rfl
    | cons a alternatives =>
      simp only [duties, refs, List.isEmpty_cons, Bool.false_eq_true, if_false, List.filterMap_map]
      exact List.filterMap_some

end Visits

/-! ### The walk -/

namespace Graph

/-- A depth-first walk through references in order, when some nodes are met already. It adds the
nodes that it enters behind them. -/
inductive DepthFirst (g : Graph) : List NodeId → List NodeId → List NodeId → Prop
  /-- No reference is left. -/
  | done (seen : List NodeId) : DepthFirst g [] seen seen
  /-- A node that is met again is passed over. -/
  | again {id target : NodeId} {shape : Shape NodeId} {refs seen order : List NodeId}
      (h : g.StandsFor id target shape) (hmem : target ∈ seen)
      (rest : DepthFirst g refs seen order) :
      DepthFirst g (id :: refs) seen order
  /-- A node that is met first is entered, and its references come before what is left. -/
  | enter {id target : NodeId} {shape : Shape NodeId} {refs seen seen' order : List NodeId}
      (h : g.StandsFor id target shape) (hnew : target ∉ seen)
      (below : DepthFirst g shape.refs (seen ++ [target]) seen')
      (rest : DepthFirst g refs seen' order) :
      DepthFirst g (id :: refs) seen order

variable {g : Graph} {E : Engine} {refs refs' seen order order' : List NodeId}

namespace DepthFirst

/-- A walk through two lists of references is a walk through the first and then through the
second. -/
theorem exists_append (h : g.DepthFirst (refs ++ refs') seen order) :
    ∃ seen', g.DepthFirst refs seen seen' ∧ g.DepthFirst refs' seen' order := by
  induction refs generalizing seen with
  | nil => exact ⟨seen, .done seen, h⟩
  | cons id refs ih =>
    cases h with
    | again hstands hmem rest =>
      obtain ⟨seen', hfirst, hsecond⟩ := ih rest
      exact ⟨seen', .again hstands hmem hfirst, hsecond⟩
    | enter hstands hnew below rest =>
      obtain ⟨seen', hfirst, hsecond⟩ := ih rest
      exact ⟨seen', .enter hstands hnew below hfirst, hsecond⟩

/-- The order of a walk is determined. -/
theorem unique (h : g.DepthFirst refs seen order) (h' : g.DepthFirst refs seen order') :
    order = order' := by
  induction h generalizing order' with
  | done => cases h'; rfl
  | again hstands hmem rest ih =>
    cases h' with
    | again _ _ rest' => exact ih rest'
    | enter hstands' hnew => exact absurd ((hstands.unique hstands').1 ▸ hmem) hnew
  | enter hstands hnew below rest ihbelow ihrest =>
    cases h' with
    | again hstands' hmem => exact absurd ((hstands'.unique hstands).1 ▸ hmem) hnew
    | enter hstands' _ below' rest' =>
      obtain ⟨rfl, rfl⟩ := hstands.unique hstands'
      obtain rfl := ihbelow below'
      exact ihrest rest'

end DepthFirst

/-- A visit that succeeds walks through its duties to visit. -/
theorem Settles.depthFirst {pending : List Duty} {result : Except Fault (List NodeId)}
    (h : g.Settles E pending seen result) (hok : result = .ok order) :
    g.DepthFirst (pending.filterMap Duty.visit?) seen order := by
  induction h with
  | done seen => cases hok; exact .done _
  | report | refused | astray => cases hok
  | tested h rest ih => exact ih hok
  | again h hmem rest ih => exact .again h hmem (ih hok)
  | @enter id target shape pending seen result h hnew rest ih =>
    have hwalk := ih hok
    rw [List.filterMap_append, Shape.visits_duties] at hwalk
    obtain ⟨seen', hbelow, hrest⟩ := hwalk.exists_append
    exact .enter h hnew hbelow hrest

/-- The nodes visited are those of the walk from the root, in its order. -/
theorem depthFirst_of_visit {root : NodeId} (h : g.visit E root = .ok order) :
    g.DepthFirst [root] [] order :=
  (settles_visit root).depthFirst h

end Graph

end JsonPattern
