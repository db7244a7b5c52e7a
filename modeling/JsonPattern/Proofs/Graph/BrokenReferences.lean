import JsonPattern.Proofs.Graph.Defects
import JsonPattern.Proofs.Graph.Rendering
import JsonPattern.Regex.Search
import Mathlib.Data.List.Lex

/-!
# Broken references

A text can be written of every pattern that leads to no broken id, whatever else is wrong with it:
clauses may be misplaced, expressions invalid, and cycles may fail to descend.

`Graph.Route` is the way of a depth-first walk to an id, with the position of the reference that is
taken at each step; a node that is open is not entered again. The positions make the address of the
id. The walk meets smaller addresses first, so the fault that is reported is that of the broken id
with the smallest address.

## Main definitions

* `Graph.Route` : the way of a depth-first walk to an id, with its address.
* `Graph.FirstBroken` : the broken id with the smallest address.

## Main results

* `Graph.exists_route_of_reaches` : a walk comes to everything that a root leads to.
* `Graph.outline_eq_error_iff` : writing a text fails with the fault of the first broken id.
* `Graph.display_total_and_error_iff` : the two passes end on every graph, and fail only where an id
  is broken.
-/

namespace JsonPattern

namespace Graph

variable (g : Graph)

/-- A depth-first walk from an id, inside the nodes around it, comes to another id at an address. -/
inductive Route : List NodeId → NodeId → List Nat → NodeId → Prop
  /-- The walk begins at the id itself. -/
  | here (around : List NodeId) (id : NodeId) : Route around id [] id
  /-- A cyclic reference is followed. -/
  | cyclic {around : List NodeId} {id next x : NodeId} {address : List Nat}
      (hlink : g.Links id next) (rest : Route around next address x) :
      Route around id (0 :: address) x
  /-- A node with a body that is not open is entered. -/
  | body {around : List NodeId} {id ref x : NodeId} {shape : Shape NodeId} {i : Nat}
      {address : List Nat} (hget : g.get id = .ok (.body shape)) (hnew : id ∉ around)
      (href : shape.refs[i]? = some ref) (rest : Route (id :: around) ref address x) :
      Route around id (i :: address) x

/-- No id that a walk comes to is broken. -/
def Intact (around : List NodeId) (id : NodeId) : Prop :=
  ∀ address x defect, g.Route around id address x → ¬ g.Broken x defect

/-- A fault is that of the first broken id that a walk comes to, at some address: no id at a smaller
address is broken. -/
structure FirstBroken (around : List NodeId) (id : NodeId) (address : List Nat) (fault : Fault) :
    Prop where
  /-- The walk comes to the id. -/
  route : g.Route around id address fault.node
  /-- The id is broken. -/
  broken : g.Broken fault.node fault.defect
  /-- It is the first one. -/
  first : ∀ earlier < address, ∀ x defect, g.Route around id earlier x → ¬ g.Broken x defect

variable {g} {around : List NodeId} {id next target x : NodeId} {shape : Shape NodeId}
  {defect : Defect} {fault : Fault} {address : List Nat}

/-! ### Broken ids -/

/-- An id is broken exactly if following references from it fails at the id itself. -/
theorem broken_iff : g.Broken id defect ↔ g.resolve id = .error ⟨id, defect⟩ := by
  constructor
  case mp =>
    intro hbroken
    cases hbroken with
    | unknownPattern h =>
      have hget : g.get id = .error ⟨id, .unknownPattern⟩ := by
        simp [get, Array.getElem?_eq_none h]
      exact (ChainEnds.fault hget).resolve_eq
    | unfilledSlot h =>
      have hget : g.get id = .error ⟨id, .unfilledSlot⟩ := by simp [get, h]
      exact (ChainEnds.fault hget).resolve_eq
    | endlessReference h =>
      refine resolve_eq_endless ?_
      rintro ⟨outcome, hends⟩
      obtain ⟨node, hlinks, hlast⟩ := hends.exists_last
      obtain ⟨next, hlink⟩ := h node hlinks
      exact hlast next hlink
  case mpr => exact fun h ↦ (broken_of_resolve h).2

/-- The node of a fault at the end of a chain is the end of the chain. -/
theorem ChainEnds.get_node (h : g.ChainEnds id (.error fault)) :
    g.get fault.node = .error fault := by
  generalize he : (Except.error fault : Except Fault (NodeId × Shape NodeId)) = outcome at h
  induction h with
  | body => cases he
  | fault hget =>
    cases he
    rwa [(broken_of_get hget).1]
  | cyclic _ _ ih => exact ih he

/-- A reference on a chain that ends is not broken, whatever there is at the end. -/
theorem Links.not_broken {outcome : Except Fault (NodeId × Shape NodeId)}
    (hlink : g.Links id next) (h : g.ChainEnds next outcome) : ¬ g.Broken id defect := by
  intro hbroken
  have hends : g.ChainEnds id outcome := .cyclic hlink h
  obtain rfl := hends.resolve_eq.symm.trans (broken_iff.1 hbroken)
  cases hlink.symm.trans hends.get_node

/-! ### Routes -/

/-- There is one id at an address. -/
theorem Route.unique {x' : NodeId} (h : g.Route around id address x)
    (h' : g.Route around id address x') : x = x' := by
  induction h with
  | here => cases h'; rfl
  | cyclic hlink rest ih =>
    cases h' with
    | cyclic hlink' rest' => exact ih (hlink.unique hlink' ▸ rest')
    | body hget => cases hlink.symm.trans hget
  | body hget hnew href rest ih =>
    cases h' with
    | cyclic hlink => cases hlink.symm.trans hget
    | body hget' hnew' href' rest' =>
      cases hget.symm.trans hget'
      cases href.symm.trans href'
      exact ih rest'

theorem Route.reaches (h : g.Route around id address x) : g.Reaches id x := by
  induction h with
  | here => exact .refl
  | cyclic hlink rest ih => exact .head ⟨_, hlink, List.mem_singleton_self _⟩ ih
  | body hget hnew href rest ih => exact .head ⟨_, hget, List.mem_of_getElem? href⟩ ih

/-- What a node on a route mentions is on a route too, unless the node is open from the start: a
node that the walk has opened itself was entered before. -/
theorem Route.exists_of_mentions (h : g.Route around id address x) (hx : g.Mentions x next) :
    (∃ address, g.Route around id address next) ∨ x ∈ around := by
  obtain ⟨pattern, hpattern, hmem⟩ := hx
  have hbody {around : List NodeId} {shape : Shape NodeId} (hget : g.get x = .ok (.body shape))
      (hnew : x ∉ around) : ∃ address, g.Route around x address next := by
    cases hpattern.symm.trans hget
    obtain ⟨i, hi⟩ := List.getElem?_of_mem hmem
    exact ⟨_, .body hget hnew hi (.here _ _)⟩
  induction h with
  | here around x =>
    cases pattern with
    | cyclic target =>
      obtain rfl := List.mem_singleton.1 hmem
      exact .inl ⟨_, .cyclic hpattern (.here _ _)⟩
    | body shape =>
      by_cases hopen : x ∈ around
      · exact .inr hopen
      · exact .inl (hbody hpattern hopen)
  | cyclic hlink rest ih =>
    exact (ih hpattern hbody).imp_left fun ⟨_, hroute⟩ ↦ ⟨_, .cyclic hlink hroute⟩
  | body hget hnew href rest ih =>
    rcases ih hpattern hbody with ⟨_, hroute⟩ | hopen
    · exact .inl ⟨_, .body hget hnew href hroute⟩
    · rcases List.mem_cons.1 hopen with rfl | hopen
      · exact .inl (hbody hget hnew)
      · exact .inr hopen

/-- A walk comes to everything that a root leads to. -/
theorem exists_route_of_reaches {root : NodeId} (h : g.Reaches root x) :
    ∃ address, g.Route [] root address x := by
  refine h.mem_of_closed (P := fun x ↦ ∃ address, g.Route [] root address x) ?_ ⟨_, .here _ _⟩
  rintro x next ⟨_, hroute⟩ hmentions
  exact (hroute.exists_of_mentions hmentions).resolve_right (List.not_mem_nil)

/-! ### The first one -/

/-- Nothing is broken on a route through what has an outline. -/
theorem HasOutline.intact {outline : Outline NodeId NodeId} (h : g.HasOutline around id outline) :
    g.Intact around id := by
  intro address x defect hroute
  induction hroute generalizing outline with
  | here =>
    obtain ⟨target, shape, hstands⟩ := h.exists_standsFor
    exact hstands.not_broken
  | cyclic hlink rest ih => exact ih (h.of_link hlink)
  | body hget hnew href rest ih =>
    obtain ⟨part, hpart⟩ := h.exists_part hget hnew (List.mem_of_getElem? href)
    exact ih hpart

namespace FirstBroken

/-- There is one first broken id. -/
theorem unique {address' : List Nat} {fault' : Fault} (h : g.FirstBroken around id address fault)
    (h' : g.FirstBroken around id address' fault') : fault = fault' := by
  rcases lt_trichotomy address address' with hlt | rfl | hlt
  · exact absurd h.broken (h'.first _ hlt _ _ h.route)
  · have hnode := h.route.unique h'.route
    have hfault : g.resolve fault.node = .error fault := broken_iff.1 h.broken
    rw [hnode, broken_iff.1 h'.broken] at hfault
    exact (Except.error.inj hfault).symm
  · exact absurd h'.broken (h.first _ hlt _ _ h'.route)

theorem here (h : g.Broken id defect) : g.FirstBroken around id [] ⟨id, defect⟩ :=
  ⟨.here _ _, h, fun _ hlt ↦ absurd hlt (List.not_lt_nil _)⟩

/-- The first one behind a reference that is not broken itself. -/
theorem cyclic (hlink : g.Links id next) (hid : ∀ defect, ¬ g.Broken id defect)
    (h : g.FirstBroken around next address fault) :
    g.FirstBroken around id (0 :: address) fault := by
  refine ⟨.cyclic hlink h.route, h.broken, fun earlier hlt x defect hroute ↦ ?_⟩
  cases hroute with
  | here => exact hid defect
  | cyclic hlink' rest =>
    obtain rfl := hlink.unique hlink'
    exact h.first _ ((List.cons_lt_cons_iff.1 hlt).resolve_left (lt_irrefl 0)).2 _ _ rest
  | body hget => cases hlink.symm.trans hget

/-- The first one inside a node that is entered, if none of the references before is broken. -/
theorem body (hget : g.get id = .ok (.body shape)) (hnew : id ∉ around) {i : Nat} {ref : NodeId}
    (href : shape.refs[i]? = some ref)
    (hbefore : ∀ j < i, ∀ ref', shape.refs[j]? = some ref' → g.Intact (id :: around) ref')
    (h : g.FirstBroken (id :: around) ref address fault) :
    g.FirstBroken around id (i :: address) fault := by
  refine ⟨.body hget hnew href h.route, h.broken, fun earlier hlt x defect hroute ↦ ?_⟩
  cases hroute with
  | here => exact StandsFor.not_broken (.body hget)
  | cyclic hlink => cases hlink.symm.trans hget
  | @body _ _ ref' _ _ j _ hget' _ href' rest =>
    cases hget.symm.trans hget'
    rcases List.cons_lt_cons_iff.1 hlt with hj | ⟨rfl, hrest⟩
    · exact hbefore j hj ref' href' _ _ _ rest
    · cases href.symm.trans href'
      exact h.first _ hrest _ _ rest

/-- The first one inside the node that an id stands for. -/
theorem of_standsFor (h : g.FirstBroken around target address fault)
    (hstands : g.ChainEnds id (.ok (target, shape))) :
    ∃ address, g.FirstBroken around id address fault := by
  generalize he : (Except.ok (target, shape) : Except Fault (NodeId × Shape NodeId)) = outcome
    at hstands
  induction hstands with
  | body hget => cases he; exact ⟨_, h⟩
  | fault hget => cases he
  | cyclic hget rest ih =>
    obtain ⟨_, hnext⟩ := ih he
    exact ⟨_, hnext.cyclic hget fun _ ↦ Links.not_broken hget rest⟩

end FirstBroken

/-- Where following references from an id fails, a walk comes to the place of the fault first. -/
theorem exists_firstBroken_of_resolve (h : g.resolve id = .error fault) :
    ∃ address, g.FirstBroken around id address fault := by
  by_cases hends : ∃ outcome, g.ChainEnds id outcome
  · obtain ⟨outcome, hends⟩ := hends
    obtain rfl : outcome = .error fault := hends.resolve_eq.symm.trans h
    generalize he : (Except.error fault : Except Fault (NodeId × Shape NodeId)) = outcome at hends
    induction hends with
    | body => cases he
    | fault hget =>
      cases he
      obtain rfl := (broken_of_get hget).1
      exact ⟨_, .here (broken_iff.2 h)⟩
    | cyclic hget rest ih =>
      obtain ⟨_, hnext⟩ := ih (he ▸ rest.resolve_eq) he
      exact ⟨_, hnext.cyclic hget fun _ ↦ Links.not_broken hget rest⟩
  · have hid := resolve_eq_endless hends
    cases h.symm.trans hid
    exact ⟨_, .here (broken_iff.2 hid)⟩

/-- A pattern that is not unfolded leads to a first broken id, which is reported. -/
theorem exists_firstBroken_of_unfold {budget : Nat} (haround : g.Distinct around)
    (hbudget : g.size < budget + around.length) (h : g.unfold budget around id = .error fault) :
    ∃ address, g.FirstBroken around id address fault := by
  induction budget generalizing around id with
  | zero => cases h
  | succ budget ih =>
    obtain ⟨fault', hfault⟩ | ⟨target, shape, hstands, hopen⟩ | ⟨target, shape, hstands, hnew⟩ :=
      g.resolve_cases around id
    · rw [unfold_of_resolve_error hfault] at h
      cases h
      exact exists_firstBroken_of_resolve hfault
    · rw [unfold_of_open hstands hopen] at h
      cases h
    · have hnext := haround.cons hstands.index_lt hnew
      rw [unfold_of_new hstands hnew] at h
      cases hparts : shape.mapM (g.unfold budget (target :: around)) with
      | ok shape' =>
        rw [hparts] at h
        cases h
      | error fault' =>
        rw [hparts] at h
        cases h
        obtain ⟨before, ref, after, hrefs, hbefore, href⟩ := Shape.mapM_eq_error hparts
        obtain ⟨address, hfirst⟩ := ih hnext (by simp; omega) href
        refine (hfirst.body hstands.get_target hnew (i := before.length) (by simp [hrefs])
          fun j hj ref' href' ↦ ?_).of_standsFor hstands
        rw [hrefs, List.getElem?_append_left hj] at href'
        obtain ⟨part, hpart⟩ := hbefore ref' (List.mem_of_getElem? href')
        exact (hasOutline_of_unfold hnext (by simp; omega) hpart).intact

/-- Writing a text fails exactly where a walk comes to a broken id, and with the fault of the first
one. -/
theorem outline_eq_error_iff {root : NodeId} :
    g.outline root = .error fault ↔ ∃ address, g.FirstBroken [] root address fault := by
  have herror {fault : Fault} (h : g.outline root = .error fault) :
      ∃ address, g.FirstBroken [] root address fault :=
    exists_firstBroken_of_unfold .nil (by simp) h
  refine ⟨herror, fun ⟨address, hfirst⟩ ↦ ?_⟩
  cases houtline : g.outline root with
  | error fault' =>
    obtain ⟨address', hfirst'⟩ := herror houtline
    rw [hfirst.unique hfirst']
  | ok outline =>
    have hintact := (hasOutline_of_outline houtline).intact
    exact absurd hfirst.broken (hintact _ _ _ hfirst.route)

/-- Writing a text fails exactly if the root leads to a broken id. -/
theorem exists_outline_eq_error_iff {root : NodeId} :
    (∃ fault, g.outline root = .error fault) ↔
      ∃ id defect, g.Reaches root id ∧ g.Broken id defect := by
  constructor
  · rintro ⟨fault, h⟩
    obtain ⟨address, hfirst⟩ := outline_eq_error_iff.1 h
    exact ⟨_, _, hfirst.route.reaches, hfirst.broken⟩
  · rintro ⟨id, defect, hreach, hbroken⟩
    obtain ⟨address, hroute⟩ := exists_route_of_reaches hreach
    cases houtline : g.outline root with
    | error fault => exact ⟨fault, rfl⟩
    | ok outline =>
      exact absurd hbroken ((hasOutline_of_outline houtline).intact _ _ _ hroute)

/-- With more rounds than the graph has slots, the two passes come to an end, on every graph. They
fail exactly if the root leads to a broken id, with the fault of the first such id that a
depth-first walk comes to; and once the first pass has succeeded, the second one does. -/
theorem display_total_and_error_iff {rounds : Nat} (hrounds : g.size < rounds) (root : NodeId) :
    ∃ outcome, g.display rounds root = some outcome ∧ outcome.map Prod.snd = g.text root ∧
      ((∃ fault, outcome = .error fault) ↔
        ∃ id defect, g.Reaches root id ∧ g.Broken id defect) ∧
      (∀ fault, outcome = .error fault ↔
        ∃ address, g.FirstBroken [] root address fault) ∧
      ∀ heads, g.collectHeads rounds rounds [] [] root = some (.ok heads) →
        ∃ result, g.draw rounds heads rounds [] root .fresh = some (.ok result) := by
  have herror (fault : Fault) :
      (g.outline root).map (fun outline ↦ (outline.numbered, outline.numbered.text)) =
        .error fault ↔ g.outline root = .error fault := by
    cases g.outline root <;> simp [Except.map]
  refine ⟨_, display_eq hrounds root, ?_, ?_, ?_, ?_⟩
  · rw [text]
    cases g.outline root <;> rfl
  · simp only [herror, exists_outline_eq_error_iff]
  · simp only [herror, outline_eq_error_iff, implies_true]
  · intro heads hheads
    rw [collectHeads_root_eq hrounds] at hheads
    cases houtline : g.outline root with
    | error fault => rw [houtline] at hheads; cases hheads
    | ok outline =>
      rw [houtline] at hheads
      cases hheads
      obtain ⟨labels, count, hdraw⟩ := exists_draw_root_eq hrounds houtline
      exact ⟨_, hdraw⟩

/-- Arrays of themselves, of an endless chain of references, or of a slot that is never filled.
Apart from these there is a pattern that refers to itself, with a clause in the wrong place and an
expression that is none. -/
def frayed : Graph :=
  ⟨#[some (.body (.arrayOf ⟨1⟩)), some (.body (.oneOf [⟨0⟩, ⟨2⟩, ⟨3⟩])), some (.cyclic ⟨4⟩), none,
    some (.cyclic ⟨2⟩), some (.body (.oneOf [⟨5⟩, ⟨6⟩])),
    some (.body (.object [.many ⟨7⟩, .flatten ⟨5⟩])), some (.body (.regex "("))]⟩

/-- The endless chain is met before the empty slot. The other pattern is written, although it does
not compile. -/
theorem display_total_and_error_iff_frayed :
    (frayed.display 9 ⟨0⟩ = some (.error ⟨⟨2⟩, .endlessReference⟩) ∧
      ∃ address, frayed.FirstBroken [] ⟨0⟩ address ⟨⟨2⟩, .endlessReference⟩) ∧
    frayed.compileWith Regex.engine ⟨5⟩ = .error ⟨⟨6⟩, .misplacedMany⟩ ∧
    frayed.collectHeads 9 9 [] [] ⟨5⟩ = some (.ok [⟨5⟩, ⟨5⟩]) ∧
      ∃ result, frayed.draw 9 [⟨5⟩, ⟨5⟩] 9 [] ⟨5⟩ .fresh = some (.ok result) := by
  have hsize : frayed.size < 9 := by decide
  have hbroken : frayed.display 9 ⟨0⟩ = some (.error ⟨⟨2⟩, .endlessReference⟩) := rfl
  have hheads : frayed.collectHeads 9 9 [] [] ⟨5⟩ = some (.ok [⟨5⟩, ⟨5⟩]) := rfl
  obtain ⟨outcome, houtcome, -, -, hfirst, -⟩ := display_total_and_error_iff hsize ⟨0⟩
  obtain ⟨-, -, -, -, -, hdraw⟩ := display_total_and_error_iff hsize ⟨5⟩
  rw [hbroken] at houtcome
  exact ⟨⟨hbroken, (hfirst _).1 (Option.some.inj houtcome).symm⟩, rfl, hheads, hdraw _ hheads⟩

end Graph

end JsonPattern
