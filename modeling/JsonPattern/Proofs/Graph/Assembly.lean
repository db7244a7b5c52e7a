import JsonPattern.Proofs.Graph.Loops

/-!
# The arena during the walk

While the walk goes on, the arena holds placeholders for the nodes that are still being assembled,
and references to these nodes are already written into other checks. What holds at every moment is
`Arena.Sound`: slots are numbered as the nodes are met, and the memo knows the slot of what an id
stands for. What a part of the walk adds is described by `Arena.Grows`: old checks stay, and every
check added is final, that is, it is what it must be in every arena that has the present nodes in
its first slots.

`Performs` ties a part of the walk to the duties that it settles, so that the whole walk is the
visit of the graph, and the arena is the table of checks in the order of the visit.

## Main definitions

* `Arena.Sound`, `Arena.Grows` : what holds of the arena, and what a part of the walk makes of it.
* `Performs` : a part of the walk settles duties.
* `Arena.Complete` : the memo has met everything that has a slot.

## Main results

* `Shape.performs_assemble` : the assembly of a body settles the duties of its node.
* `performs_descend` : the descent into a node settles the visit of the node.
* `exists_assemble` : the walk ends with the validator that the graph compiles to.
* `compile_iff_wellFormed` : a graph compiles if and only if what the root leads to is well-formed.
-/

namespace JsonPattern

variable {g : Graph} {E : Engine}

namespace Arena

/-- The slots of an arena are consistent with its memo. -/
structure Sound (g : Graph) (arena : Arena) : Prop where
  /-- The nodes with a slot are different nodes of the graph. -/
  distinct : g.Distinct arena.bodies
  /-- They have bodies. -/
  exists_body : ∀ id ∈ arena.bodies, ∃ shape, g.get id = .ok (.body shape)
  /-- The memo has met them. -/
  exists_memo : ∀ id ∈ arena.bodies, ∃ slot, arena.memo id = some slot
  /-- The memo gives the slot of the node that an id stands for. -/
  memo_slot : ∀ id slot, arena.memo id = some slot → ∃ target ∈ arena.bodies, ∃ shape,
    g.StandsFor id target shape ∧ slot = arena.bodies.idxOf target
  /-- Every node has one check. -/
  size_checks : arena.checks.size = arena.bodies.length

/-- What a part of the walk makes of an arena. -/
structure Grows (g : Graph) (E : Engine) (arena arena' : Arena) : Prop where
  /-- Nodes are added behind the old ones. -/
  bodies_prefix : arena.bodies <+: arena'.bodies
  /-- Nothing is forgotten. -/
  memo_mono : ∀ id slot, arena.memo id = some slot → arena'.memo id = some slot
  /-- Old checks stay as they are. -/
  checks_old : ∀ i < arena.checks.size, arena'.checks[i]? = arena.checks[i]?
  /-- Checks added are final. -/
  checks_new : ∀ i, arena.checks.size ≤ i → ∀ id, arena'.bodies[i]? = some id →
    ∀ order, arena'.bodies <+: order →
      arena'.checks[i]? = some (((g.table E).check id).map (g.slot order))
  /-- The memo has met what nodes added refer to. -/
  refs_met : ∀ i, arena.checks.size ≤ i → ∀ id, arena'.bodies[i]? = some id →
    ∀ ref ∈ (g.shape id).refs, ∃ slot, arena'.memo ref = some slot

theorem Grows.refl {arena : Arena} (h : arena.Sound g) : arena.Grows g E arena := by
  have hnone (i : Nat) (hi : arena.checks.size ≤ i) (id : NodeId) :
      arena.bodies[i]? ≠ some id := fun hid ↦ by
    have hlt := (List.getElem?_eq_some_iff.1 hid).1
    have := h.size_checks
    omega
  exact ⟨List.prefix_refl _, fun _ _ h ↦ h, fun _ _ ↦ rfl,
    fun i hi id hid ↦ absurd hid (hnone i hi id), fun i hi id hid ↦ absurd hid (hnone i hi id)⟩

theorem Grows.size_le {arena arena' : Arena} (h : arena.Grows g E arena') (hs : arena.Sound g)
    (hs' : arena'.Sound g) : arena.checks.size ≤ arena'.checks.size := by
  rw [hs.size_checks, hs'.size_checks]
  exact h.bodies_prefix.length_le

theorem Grows.trans {a b c : Arena} (h : a.Grows g E b) (h' : b.Grows g E c) (ha : a.Sound g)
    (hb : b.Sound g) : a.Grows g E c := by
  have hsize := h.size_le ha hb
  refine ⟨h.bodies_prefix.trans h'.bodies_prefix,
    fun id slot hslot ↦ h'.memo_mono id slot (h.memo_mono id slot hslot),
    fun i hi ↦ (h'.checks_old i (by omega)).trans (h.checks_old i hi),
    fun i hi id hid order horder ↦ ?_, fun i hi id hid ref href ↦ ?_⟩
  all_goals
    have hfirst (hlt : i < b.checks.size) : b.bodies[i]? = some id := by
      obtain ⟨new, hnew⟩ := h'.bodies_prefix
      rwa [← hnew, List.getElem?_append_left (by rw [← hb.size_checks]; exact hlt)] at hid
    by_cases hlt : i < b.checks.size
  · rw [h'.checks_old i hlt]
    exact h.checks_new i hi id (hfirst hlt) order (h'.bodies_prefix.trans horder)
  · exact h'.checks_new i (by omega) id hid order horder
  · obtain ⟨slot, hslot⟩ := h.refs_met i hi id (hfirst hlt) ref href
    exact ⟨slot, h'.memo_mono ref slot hslot⟩
  · exact h'.refs_met i (by omega) id hid ref href

end Arena

/-- What a part of the walk yields that settles duties: a fault that ends the visit too, or a
result that is what is expected in every arena that has the present nodes in its first slots. -/
def Performed {α : Type} (g : Graph) (E : Engine) (duties : List Duty)
    (expected : List NodeId → α) (arena : Arena) : Option (Except Fault (α × Arena)) → Prop
  | none => False
  | some (.error fault) => ∀ pending, g.Settles E (duties ++ pending) arena.bodies (.error fault)
  | some (.ok (a, arena')) => arena'.Sound g ∧ arena.Grows g E arena' ∧
      (∀ order, arena'.bodies <+: order → a = expected order) ∧
      (∀ id, .visit id ∈ duties → ∃ slot, arena'.memo id = some slot) ∧
      ∀ pending result, g.Settles E pending arena'.bodies result →
        g.Settles E (duties ++ pending) arena.bodies result

/-- A part of the walk settles duties wherever at most `room` nodes have no slot yet. -/
def Performs {α : Type} (g : Graph) (E : Engine) (room : Nat) (part : Assembly α)
    (duties : List Duty) (expected : List NodeId → α) : Prop :=
  ∀ arena : Arena, arena.Sound g → g.size ≤ arena.bodies.length + room →
    Performed g E duties expected arena (part arena)

theorem Assembly.bind_apply {α β : Type} (part : Assembly α) (next : α → Assembly β)
    (arena : Arena) :
    (part >>= next) arena = match part arena with
      | none => none
      | some (.error fault) => some (.error fault)
      | some (.ok (a, arena)) => next a arena := by
  cases h : part arena with
  | none => simp [Bind.bind, StateT.bind, ExceptT.bind, ExceptT.mk, h]
  | some result =>
    cases result with
    | error fault => simp [Bind.bind, StateT.bind, ExceptT.bind, ExceptT.mk, ExceptT.bindCont, h]
    | ok result => simp [Bind.bind, StateT.bind, ExceptT.bind, ExceptT.mk, ExceptT.bindCont, h]

namespace Performs

variable {α β : Type} {room : Nat}

theorem pure (a : α) : Performs g E room (Pure.pure a) [] fun _ ↦ a := by
  intro arena hs _
  exact ⟨hs, .refl hs, fun _ _ ↦ rfl, fun _ h ↦ absurd h List.not_mem_nil, fun _ _ h ↦ h⟩

theorem fail (fault : Fault) (duties : List Duty) (expected : List NodeId → α) :
    Performs g E room (Assembly.fail fault) (.report fault :: duties) expected := by
  intro arena hs _ pending
  exact .report fault (duties ++ pending) arena.bodies

/-- A part of the walk goes on with what an earlier part has yielded. -/
theorem bind {part : Assembly α} {next : α → Assembly β} {duties duties' : List Duty}
    {expected : List NodeId → α} {expected' : α → List NodeId → β}
    (h : Performs g E room part duties expected)
    (hnext : ∀ a, Performs g E room (next a) duties' (expected' a)) :
    Performs g E room (part >>= next) (duties ++ duties')
      fun order ↦ expected' (expected order) order := by
  intro arena hs hroom
  have hpart := h arena hs hroom
  rw [Assembly.bind_apply]
  cases hcase : part arena with
  | none => rw [hcase] at hpart; exact hpart
  | some result =>
    rw [hcase] at hpart
    cases result with
    | error fault => exact fun pending ↦ by simpa using hpart (duties' ++ pending)
    | ok result =>
      obtain ⟨a, arena₁⟩ := result
      obtain ⟨hs₁, hgrows₁, hexpected₁, hmet₁, hsettles₁⟩ := hpart
      have hlength := hgrows₁.bodies_prefix.length_le
      have hrest := hnext a arena₁ hs₁ (by omega)
      change Performed g E _ _ arena (next a arena₁)
      cases hcase' : next a arena₁ with
      | none => rw [hcase'] at hrest; exact hrest
      | some result =>
        rw [hcase'] at hrest
        cases result with
        | error fault =>
          exact fun pending ↦ by
            simpa using hsettles₁ (duties' ++ pending) _ (hrest pending)
        | ok result =>
          obtain ⟨b, arena₂⟩ := result
          obtain ⟨hs₂, hgrows₂, hexpected₂, hmet₂, hsettles₂⟩ := hrest
          refine ⟨hs₂, hgrows₁.trans hgrows₂ hs hs₁, fun order horder ↦ ?_, fun id hid ↦ ?_,
            fun pending result h ↦ ?_⟩
          · change b = expected' (expected order) order
            rw [← hexpected₁ order (hgrows₂.bodies_prefix.trans horder)]
            exact hexpected₂ order horder
          · rcases List.mem_append.1 hid with hid | hid
            · obtain ⟨slot, hslot⟩ := hmet₁ id hid
              exact ⟨slot, hgrows₂.memo_mono id slot hslot⟩
            · exact hmet₂ id hid
          · simpa using hsettles₁ _ _ (hsettles₂ pending result h)

/-- The result of a part of the walk is put to use. -/
theorem bind_pure {part : Assembly α} {f : α → β} {duties : List Duty}
    {expected : List NodeId → α} (h : Performs g E room part duties expected) :
    Performs g E room (do let a ← part; Pure.pure (f a)) duties fun order ↦ f (expected order) := by
  simpa using h.bind fun a ↦ pure (f a)

/-- A test of a flatten target settles its duty. -/
theorem test {owner target : NodeId} {result : Option (Except Fault Unit)}
    (h : result = some (g.testFlatten owner target)) :
    Performs g E room (Assembly.lift result) [.testFlatten owner target] fun _ ↦ () := by
  intro arena hs _
  subst h
  change Performed g E _ _ arena
    (some ((g.testFlatten owner target).map fun a ↦ (a, arena)))
  cases htest : g.testFlatten owner target with
  | error fault => exact fun pending ↦ .refused htest
  | ok =>
    exact ⟨hs, .refl hs, fun _ _ ↦ rfl, fun _ h ↦ by simp at h,
      fun pending result hrest ↦ .tested htest hrest⟩

/-- A list of nodes is descended into. -/
theorem mapM {descend : NodeId → Assembly Nat}
    (h : ∀ id, Performs g E room (descend id) [.visit id] fun order ↦ g.slot order id) :
    (ids : List NodeId) → Performs g E room (ids.mapM descend) (ids.map .visit)
      fun order ↦ ids.map (g.slot order)
  | [] => pure []
  | id :: ids => by
    rw [List.mapM_cons]
    exact (h id).bind fun slot ↦ (mapM h ids).bind_pure (f := List.cons slot)

end Performs

/-! ### Bodies -/

/-- The descent into nodes and the test of flatten targets settle the duties that they are for. -/
structure Serves (g : Graph) (E : Engine) (room : Nat) (owner : NodeId)
    (descend : NodeId → Assembly Nat) (testFlatten : NodeId → NodeId → Assembly Unit) : Prop where
  /-- The descent visits a node and yields its slot. -/
  visit : ∀ id, Performs g E room (descend id) [.visit id] fun order ↦ g.slot order id
  /-- The test tests a target. -/
  test : ∀ target, Performs g E room (testFlatten owner target) [.testFlatten owner target]
    fun _ ↦ ()

variable {room : Nat} {owner : NodeId} {descend : NodeId → Assembly Nat}
  {testFlatten : NodeId → NodeId → Assembly Unit}

mutual

theorem Clause.performs_assemble (h : Serves g E room owner descend testFlatten) :
    (clause : Clause NodeId) →
    Performs g E room (clause.assemble descend testFlatten owner) (clause.duties owner)
      fun order ↦ clause.map (g.slot order)
  | .named name value => (h.visit value).bind_pure
  | .optional group => (performs_assembleGroup h group).bind_pure
  | .many value => (h.visit value).bind_pure
  | .flatten target => (h.test target).bind fun _ ↦ (h.visit target).bind_pure
  | .oneOf groups => by
    have hgroups := performs_assembleGroups h groups
    cases groups with
    | nil => exact .fail _ [] _
    | cons group groups => exact hgroups.bind_pure

theorem performs_assembleGroup (h : Serves g E room owner descend testFlatten) :
    (group : List (Clause NodeId)) →
    Performs g E room (assembleGroup descend testFlatten owner group) (groupDuties owner group)
      fun order ↦ groupMap (g.slot order) group
  | [] => .pure []
  | clause :: group => by
    have hclause := clause.performs_assemble h
    have hgroup := performs_assembleGroup h group
    rw [assembleGroup, groupDuties]
    by_cases hmany : (clause.isMany && !group.isEmpty) = true
    · simp only [hmany, if_true]
      exact .fail _ _ _
    · simp only [hmany]
      exact hclause.bind fun clause ↦ hgroup.bind_pure (f := List.cons clause)

theorem performs_assembleGroups (h : Serves g E room owner descend testFlatten) :
    (groups : List (List (Clause NodeId))) →
    Performs g E room (assembleGroups descend testFlatten owner groups) (groupsDuties owner groups)
      fun order ↦ groupsMap (g.slot order) groups
  | [] => .pure []
  | group :: groups =>
    (performs_assembleGroup h group).bind fun group ↦
      (performs_assembleGroups h groups).bind_pure (f := List.cons group)

end

/-- The assembly of a body settles the duties of its node and yields the check of the body with
slots for its references. -/
theorem Shape.performs_assemble (h : Serves g E room owner descend testFlatten)
    (shape : Shape NodeId) :
    Performs g E room (shape.assemble descend testFlatten owner E) (shape.duties owner E)
      fun order ↦ ((shape.check? E).getD .anything).map (g.slot order) := by
  cases shape with
  | literal value =>
    by_cases hscalar : value.isScalar
    · simpa [assemble, duties, hscalar, check?, Check.map] using Performs.pure _
    · simpa [assemble, duties, hscalar] using Performs.fail _ [] _
  | type name => cases name <;> exact .pure _
  | regex source =>
    cases hread : E.read source with
    | error explanation => simpa [assemble, duties, hread] using Performs.fail _ [] _
    | ok matcher =>
      simpa [assemble, duties, hread, check?, Except.toOption, Check.map] using Performs.pure _
  | arrayOf element => exact (h.visit element).bind_pure
  | object clauses => exact (performs_assembleGroup h clauses).bind_pure
  | oneOf alternatives =>
    cases alternatives with
    | nil => exact .fail _ [] _
    | cons a alternatives => exact (Performs.mapM h.visit (a :: alternatives)).bind_pure
  | anything => exact .pure _

/-! ### The descent -/

namespace Arena

variable {arena arena' : Arena} {id target : NodeId} {shape : Shape NodeId} {slot : Nat}

/-- The slot of a node stays the same while nodes are added. -/
theorem slot_eq (hstands : g.StandsFor id target shape) (hmem : target ∈ arena.bodies)
    {order : List NodeId} (horder : arena.bodies <+: order) :
    g.slot order id = arena.bodies.idxOf target := by
  obtain ⟨new, rfl⟩ := horder
  rw [Graph.slot, hstands.resolved_eq, List.idxOf_append_of_mem hmem]

/-- The memo gives the slots by which checks refer to each other. -/
theorem Sound.slot_of_memo (h : arena.Sound g) (hmemo : arena.memo id = some slot) :
    slot = g.slot arena.bodies id := by
  obtain ⟨target, hmem, shape, hstands, rfl⟩ := h.memo_slot id slot hmemo
  exact (slot_eq hstands hmem (List.prefix_refl _)).symm

/-- What the memo has met, it has met after it has met one more id. -/
theorem memo_remember {x : NodeId} (h : ∃ other, arena.memo x = some other) :
    ∃ other, (arena.remember id slot).memo x = some other := by
  by_cases hxid : x = id
  · exact ⟨slot, if_pos hxid⟩
  · obtain ⟨other, hother⟩ := h
    exact ⟨other, (if_neg hxid).trans hother⟩

/-- A cyclic reference gets the slot of the node that it stands for. -/
theorem Sound.remember (h : arena.Sound g) (hstands : g.StandsFor id target shape)
    (hmem : target ∈ arena.bodies) :
    (arena.remember id (arena.bodies.idxOf target)).Sound g := by
  refine ⟨h.distinct, h.exists_body, fun x hx ↦ memo_remember (h.exists_memo x hx),
    fun x slot hslot ↦ ?_, h.size_checks⟩
  by_cases hxid : x = id
  · subst hxid
    have hslot : some (arena.bodies.idxOf target) = some slot := by
      simpa [Arena.remember] using hslot
    exact ⟨target, hmem, shape, hstands, (Option.some.inj hslot).symm⟩
  · exact h.memo_slot x slot (by simpa [Arena.remember, hxid] using hslot)

theorem Grows.remember (h : arena.Grows g E arena') (hnew : arena.memo id = none) :
    arena.Grows g E (arena'.remember id slot) := by
  refine ⟨h.bodies_prefix, fun x other hx ↦ ?_, h.checks_old, h.checks_new,
    fun i hi x hx ref href ↦ memo_remember (h.refs_met i hi x hx ref href)⟩
  have hxid : x ≠ id := by
    rintro rfl
    rw [hnew] at hx
    cases hx
  simpa [Arena.remember, hxid] using h.memo_mono x other hx

/-- A node whose slot is not known gets the next one. -/
theorem Sound.reserve (h : arena.Sound g) (hget : g.get id = .ok (.body shape))
    (hnew : id ∉ arena.bodies) : (arena.reserve id).Sound g := by
  have hstands : g.StandsFor id id shape := .body hget
  have hslot : arena.checks.size = (arena.bodies ++ [id]).idxOf id := by
    rw [List.idxOf_append_of_notMem hnew]
    simp [h.size_checks]
  have hold : ∀ x ∈ arena.bodies, (arena.bodies ++ [id]).idxOf x = arena.bodies.idxOf x :=
    fun x hx ↦ List.idxOf_append_of_mem hx
  refine ⟨h.distinct.concat hstands hnew, ?_, ?_, ?_, ?_⟩
  · intro x hx
    rcases List.mem_append.1 hx with hx | hx
    · exact h.exists_body x hx
    · exact List.mem_singleton.1 hx ▸ ⟨shape, hget⟩
  · intro x hx
    by_cases hxid : x = id
    · exact ⟨_, if_pos hxid⟩
    · have hx : x ∈ arena.bodies := by simpa [Arena.reserve, hxid] using hx
      obtain ⟨slot, hslot⟩ := h.exists_memo x hx
      exact ⟨slot, (if_neg hxid).trans hslot⟩
  · intro x slot hx
    by_cases hxid : x = id
    · subst hxid
      have hx : arena.checks.size = slot := by simpa [Arena.reserve, Arena.remember] using hx
      exact ⟨x, by simp [Arena.reserve], shape, hstands, hx ▸ hslot⟩
    · obtain ⟨target, hmem, shape', hstands', rfl⟩ :=
        h.memo_slot x slot (by simpa [Arena.reserve, Arena.remember, hxid] using hx)
      exact ⟨target, List.mem_append_left _ hmem, shape', hstands', (hold target hmem).symm⟩
  · simp [Arena.reserve, h.size_checks]

theorem Sound.install (h : arena.Sound g) (check : Check Nat) :
    (arena.install slot check).Sound g :=
  ⟨h.distinct, h.exists_body, h.exists_memo, h.memo_slot,
    by simpa [Arena.install] using h.size_checks⟩

/-- A node is finished: its placeholder is replaced by the final check, and what its references
have added is final already. -/
theorem Grows.install (hs : arena.Sound g) (hnew : id ∉ arena.bodies)
    (hmemo : arena.memo id = none) (hget : g.get id = .ok (.body shape))
    (h : (arena.reserve id).Grows g E arena') (hs' : arena'.Sound g) {check : Check Nat}
    (hcheck : ∀ order, arena'.bodies <+: order →
      check = ((shape.check? E).getD .anything).map (g.slot order))
    (hmet : ∀ ref ∈ shape.refs, ∃ slot, arena'.memo ref = some slot) :
    arena.Grows g E (arena'.install arena.checks.size check) := by
  have hsize : arena.checks.size < arena'.checks.size := by
    have hle := h.size_le (hs.reserve hget hnew) hs'
    exact Nat.lt_of_succ_le (by simpa [Arena.reserve] using hle)
  obtain ⟨new, hbodies⟩ := h.bodies_prefix
  have hid : arena'.bodies[arena.checks.size]? = some id := by
    rw [← hbodies, hs.size_checks]
    simp [Arena.reserve]
  refine ⟨⟨[id] ++ new, ?_⟩, fun x slot hx ↦ ?_, fun i hi ↦ ?_, fun i hi x hx order horder ↦ ?_,
    fun i hi x hx ref href ↦ ?_⟩
  · change arena.bodies ++ ([id] ++ new) = arena'.bodies
    simpa [Arena.reserve] using hbodies
  · have hxid : x ≠ id := by
      rintro rfl
      rw [hmemo] at hx
      cases hx
    exact h.memo_mono x slot (by simpa [Arena.reserve, Arena.remember, hxid] using hx)
  · have hold := h.checks_old i (by simp [Arena.reserve]; omega)
    simp only [Arena.install, Array.getElem?_setIfInBounds]
    rw [if_neg (by omega), hold]
    simp [Arena.reserve, Array.getElem?_push, Nat.ne_of_lt hi]
  · simp only [Arena.install, Array.getElem?_setIfInBounds]
    by_cases hslot : arena.checks.size = i
    · subst hslot
      obtain rfl : id = x := Option.some.inj (hid.symm.trans hx)
      rw [if_pos rfl, if_pos hsize, Graph.map_slot_check hget, hcheck order horder]
    · rw [if_neg hslot]
      exact h.checks_new i (by simp [Arena.reserve]; omega) x hx order horder
  · by_cases hslot : arena.checks.size = i
    · subst hslot
      obtain rfl : id = x := Option.some.inj (hid.symm.trans hx)
      exact hmet ref (Graph.shape_eq_of_get hget ▸ href)
    · exact h.refs_met i (by simp [Arena.reserve]; omega) x hx ref href

end Arena

/-- A visit of a reference is a visit of the node that it stands for. -/
theorem Graph.Settles.of_standsFor {id target : NodeId} {shape : Shape NodeId}
    (hstands : g.StandsFor id target shape) {pending : List Duty} {seen : List NodeId}
    {result : Except Fault (List NodeId)} (h : g.Settles E (.visit target :: pending) seen result) :
    g.Settles E (.visit id :: pending) seen result := by
  have hself := hstands.self
  cases h with
  | astray hresolve => rw [hself.resolve_eq] at hresolve; cases hresolve
  | again h hmem rest =>
    obtain ⟨rfl, rfl⟩ := h.unique hself
    exact .again hstands hmem rest
  | enter h hnew rest =>
    obtain ⟨rfl, rfl⟩ := h.unique hself
    exact .enter hstands hnew rest

namespace Performed

variable {duties : List Duty} {expected : List NodeId → Nat} {arena : Arena}
  {id target : NodeId} {shape : Shape NodeId}

/-- An id that the memo knows needs no visit. -/
theorem known (hs : arena.Sound g) {slot : Nat} (hslot : arena.memo id = some slot) :
    Performed g E [.visit id] (fun order ↦ g.slot order id) arena (some (.ok (slot, arena))) := by
  obtain ⟨target, hmem, shape, hstands, rfl⟩ := hs.memo_slot id slot hslot
  exact ⟨hs, .refl hs, fun order horder ↦ (Arena.slot_eq hstands hmem horder).symm,
    fun x hx ↦ ⟨_, (by simpa using hx : x = id) ▸ hslot⟩,
    fun pending result h ↦ .again hstands hmem h⟩

/-- A descent into the node that a reference stands for does for the reference, once its slot is
remembered. -/
theorem remember (hmemo : arena.memo id = none) (hstands : g.StandsFor id target shape)
    {result : Option (Except Fault (Nat × Arena))} :
    Performed g E [.visit target] (fun order ↦ g.slot order target) arena result →
    Performed g E [.visit id] (fun order ↦ g.slot order id) arena (match result with
      | none => none
      | some (.error fault) => some (.error fault)
      | some (.ok (slot, arena)) => some (.ok (slot, arena.remember id slot))) := by
  intro h
  rcases result with - | fault | ⟨slot, arena'⟩
  · exact h
  · intro pending
    exact .of_standsFor hstands (h pending)
  · obtain ⟨hs', hgrows, hslot, -, hsettles⟩ := h
    have hmem : target ∈ arena'.bodies := by
      have hrun := (hsettles [] _ (.done _)).settled rfl
      obtain ⟨other, hother, shape', hstands'⟩ := hrun.1 _ List.mem_cons_self
      exact (hstands'.unique hstands.self).1 ▸ hother
    have hslot : slot = arena'.bodies.idxOf target :=
      (hslot _ (List.prefix_refl _)).trans
        (Arena.slot_eq hstands.self hmem (List.prefix_refl _))
    subst hslot
    exact ⟨hs'.remember hstands hmem, hgrows.remember hmemo,
      fun order horder ↦ (Arena.slot_eq hstands hmem horder).symm,
      fun x hx ↦ ⟨_, if_pos (by simpa using hx)⟩,
      fun pending result h ↦ .of_standsFor hstands (hsettles pending result h)⟩

/-- What is assembled from the body of a node does for the node, once it is installed. -/
theorem install (hs : arena.Sound g) (hmemo : arena.memo id = none) (hnew : id ∉ arena.bodies)
    (hget : g.get id = .ok (.body shape)) {result : Option (Except Fault (Check Nat × Arena))} :
    Performed g E (shape.duties id E)
      (fun order ↦ ((shape.check? E).getD .anything).map (g.slot order)) (arena.reserve id) result →
    Performed g E [.visit id] (fun order ↦ g.slot order id) arena (match result with
      | none => none
      | some (.error fault) => some (.error fault)
      | some (.ok (check, arena')) =>
        some (.ok (arena.checks.size, arena'.install arena.checks.size check))) := by
  intro h
  have hstands : g.StandsFor id id shape := .body hget
  rcases result with - | fault | ⟨check, arena'⟩
  · exact h
  · intro pending
    exact .enter hstands hnew (h pending)
  · obtain ⟨hs', hgrows, hcheck, hmet, hsettles⟩ := h
    have hrefs : ∀ ref ∈ shape.refs, ∃ slot, arena'.memo ref = some slot :=
      fun ref href ↦ hmet ref (Shape.visit_mem_duties.2 href)
    have hid : arena'.memo id = some arena.checks.size := hgrows.memo_mono id _ (if_pos rfl)
    refine ⟨hs'.install check, .install hs hnew hmemo hget hgrows hs' hcheck hrefs, ?_, ?_, ?_⟩
    · intro order horder
      have hslot := Arena.slot_eq hstands (by simp [Arena.reserve])
        (hgrows.bodies_prefix.trans horder)
      refine Eq.trans ?_ hslot.symm
      simp [Arena.reserve, List.idxOf_append_of_notMem hnew, hs.size_checks]
    · intro x hx
      obtain rfl : x = id := by simpa using hx
      exact ⟨_, hid⟩
    · intro pending result h
      exact .enter hstands hnew (hsettles pending result h)

end Performed

section Descent

variable {rounds levels : Nat} {id : NodeId} {arena : Arena}

theorem Graph.descend_known {slot : Nat} (h : arena.memo id = some slot) :
    g.descend E rounds (levels + 1) id arena = some (.ok (slot, arena)) := by
  rw [descend, Assembly.bind_apply]
  simp only [Assembly.read, h]
  rfl

theorem Graph.descend_fault (h : arena.memo id = none) {fault : Fault}
    (hget : g.get id = .error fault) :
    g.descend E rounds (levels + 1) id arena = some (.error fault) := by
  rw [descend, Assembly.bind_apply]
  simp only [Assembly.read, h, hget]
  rfl

theorem Graph.descend_cyclic (h : arena.memo id = none) {next : NodeId}
    (hget : g.get id = .ok (.cyclic next)) :
    g.descend E rounds (levels + 1) id arena = match g.chaseFrom rounds id with
      | none => none
      | some (.error fault) => some (.error fault)
      | some (.ok (target, _)) => match g.descend E rounds levels target arena with
        | none => none
        | some (.error fault) => some (.error fault)
        | some (.ok (slot, arena)) => some (.ok (slot, arena.remember id slot)) := by
  rw [descend, Assembly.bind_apply]
  simp only [Assembly.read, h, hget, Assembly.bind_apply, Assembly.lift]
  rcases g.chaseFrom rounds id with - | - | ⟨target, shape⟩
  · rfl
  · rfl
  · simp only [Option.map_some, Except.map]
    rcases g.descend E rounds levels target arena with - | - | ⟨slot, arena⟩ <;> rfl

theorem Graph.descend_body (h : arena.memo id = none) {shape : Shape NodeId}
    (hget : g.get id = .ok (.body shape)) :
    g.descend E rounds (levels + 1) id arena =
      match shape.assemble (g.descend E rounds levels) (g.siftTest rounds) id E
        (arena.reserve id) with
      | none => none
      | some (.error fault) => some (.error fault)
      | some (.ok (check, arena')) =>
        some (.ok (arena.checks.size, arena'.install arena.checks.size check)) := by
  rw [descend, Assembly.bind_apply]
  simp only [Assembly.read, h, hget, Assembly.bind_apply, Assembly.change]
  rcases shape.assemble (g.descend E rounds levels) (g.siftTest rounds) id E (arena.reserve id)
    with - | - | ⟨check, arena'⟩ <;> rfl

end Descent

/-- The descent into a node settles the visit of the node and yields its slot. Below a node with a
body there is a node less without a slot, and a cyclic reference leads to a node with a body, so
two levels for each node are enough. -/
theorem performs_descend {rounds : Nat} (hrounds : g.size < rounds)
    (hsift : ∀ owner target : NodeId, owner.index < g.size →
      g.sift rounds owner rounds [target] [] = some (g.testFlatten owner target))
    (levels room : Nat) (id : NodeId)
    (hlevels : 2 * room + 2 ≤ levels ∨
      (∃ shape, g.get id = .ok (.body shape)) ∧ 2 * room + 1 ≤ levels) :
    Performs g E room (g.descend E rounds levels id) [.visit id] fun order ↦ g.slot order id := by
  induction levels generalizing room id with
  | zero => omega
  | succ levels ih =>
    intro arena hs hroom
    cases hmemo : arena.memo id with
    | some slot => exact Graph.descend_known hmemo ▸ .known hs hmemo
    | none =>
      rcases hget : g.get id with fault | ⟨shape | next⟩
      · rw [Graph.descend_fault hmemo hget]
        intro pending
        exact .astray (Graph.ChainEnds.fault hget).resolve_eq
      · have hnew : id ∉ arena.bodies := by
          intro hmem
          obtain ⟨slot, hslot⟩ := hs.exists_memo id hmem
          rw [hmemo] at hslot
          cases hslot
        have hs₁ := hs.reserve hget hnew
        have hroom₁ : 1 ≤ room := by
          have hle := hs₁.distinct.length_le
          simp only [Arena.reserve, List.length_append, List.length_singleton] at hle
          omega
        have hserves : Serves g E (room - 1) id (g.descend E rounds levels) (g.siftTest rounds) :=
          ⟨fun x ↦ ih (room - 1) x (.inl (by omega)),
            fun target ↦ .test (hsift id target (Graph.index_lt_of_get hget))⟩
        rw [Graph.descend_body hmemo hget]
        exact .install hs hmemo hnew hget (shape.performs_assemble hserves (arena.reserve id) hs₁
          (by simp [Arena.reserve]; omega))
      · rw [Graph.descend_cyclic hmemo hget, Graph.chaseFrom_eq hrounds]
        cases hresolve : g.resolve id with
        | error fault =>
          intro pending
          exact .astray hresolve
        | ok result =>
          obtain ⟨target, shape⟩ := result
          have hstands : g.StandsFor id target shape := Graph.resolve_eq_ok_iff.1 hresolve
          have hlevels : 2 * room + 1 ≤ levels := by
            rcases hlevels with hlevels | ⟨⟨shape, hbody⟩, -⟩
            · omega
            · rw [hget] at hbody
              cases hbody
          exact .remember hmemo hstands
            (ih room target (.inr ⟨⟨shape, hstands.get_target⟩, hlevels⟩) arena hs hroom)

/-! ### The whole walk -/

theorem Arena.sound_empty : Arena.empty.Sound g := by
  refine ⟨.nil, ?_, ?_, ?_, rfl⟩ <;> simp [Arena.empty]

/-- The checks of a finished arena are those of its nodes. -/
theorem Arena.Grows.checks_eq {arena : Arena} (h : Arena.empty.Grows g E arena)
    (hs : arena.Sound g) : arena.checks = (g.checks E arena.bodies).toArray := by
  refine Array.ext_getElem? ?_
  intro i
  by_cases hi : i < arena.bodies.length
  · have hid : arena.bodies[i]? = some arena.bodies[i] := List.getElem?_eq_getElem hi
    rw [h.checks_new i (Nat.zero_le i) _ hid _ (List.prefix_refl _)]
    simp [Graph.checks, hid]
  · rw [Array.getElem?_eq_none (by rw [hs.size_checks]; omega)]
    simp [Graph.checks, Nat.le_of_not_lt hi]

/-- The memo has met the root and everything that the nodes with a slot refer to. -/
structure Arena.Complete (g : Graph) (root : NodeId) (arena : Arena) : Prop where
  /-- The root is met. -/
  root_met : ∃ slot, arena.memo root = some slot
  /-- What the nodes refer to is met. -/
  refs_met : ∀ id ∈ arena.bodies, ∀ ref ∈ (g.shape id).refs, ∃ slot, arena.memo ref = some slot

theorem Arena.Grows.complete {arena : Arena} {root : NodeId} (h : Arena.empty.Grows g E arena)
    (hroot : ∃ slot, arena.memo root = some slot) : arena.Complete g root := by
  refine ⟨hroot, ?_⟩
  intro id hid ref href
  obtain ⟨i, hi⟩ := List.mem_iff_getElem?.1 hid
  exact h.refs_met i (Nat.zero_le i) id hi ref href

/-- From some number of rounds on, the walk ends as the visit of the root does, with the nodes of
the visit in its slots. -/
theorem exists_descend (g : Graph) (E : Engine) (root : NodeId) :
    ∃ least, ∀ rounds, least ≤ rounds → match g.visit E root with
    | .error fault => g.descend E rounds rounds root .empty = some (.error fault)
    | .ok order => ∃ arena, g.descend E rounds rounds root .empty =
        some (.ok (g.slot order root, arena)) ∧ arena.bodies = order ∧ arena.Sound g ∧
          arena.Complete g root ∧ arena.checks = (g.checks E order).toArray := by
  obtain ⟨least, hsift⟩ := Graph.exists_sift g
  refine ⟨max (2 * g.size + 2) least, ?_⟩
  intro rounds hrounds
  have hsize : 2 * g.size + 2 ≤ rounds := le_trans (le_max_left _ _) hrounds
  have hperforms := performs_descend (E := E) (by omega)
    (hsift rounds (le_trans (le_max_right _ _) hrounds)) rounds g.size root (.inl hsize)
    .empty Arena.sound_empty (by simp [Arena.empty])
  have hvisit := Graph.settles_visit (g := g) (E := E) root
  cases hcase : g.descend E rounds rounds root .empty with
  | none => rw [hcase] at hperforms; exact hperforms.elim
  | some result =>
    rw [hcase] at hperforms
    cases result with
    | error fault => rw [hvisit.unique (hperforms [])]
    | ok result =>
      obtain ⟨slot, arena⟩ := result
      obtain ⟨hs, hgrows, hslot, hmet, hsettles⟩ := hperforms
      rw [hvisit.unique (hsettles [] _ (.done _))]
      refine ⟨arena, ?_, rfl, hs, hgrows.complete (hmet root List.mem_cons_self),
        hgrows.checks_eq hs⟩
      rw [hslot _ (List.prefix_refl _)]

/-- From some number of rounds on, the validator assembled in one walk is the validator that the
graph compiles to. -/
theorem exists_assemble (g : Graph) (E : Engine) (root : NodeId) :
    ∃ least, ∀ rounds, least ≤ rounds → match g.compileWith E root with
    | .error fault => g.assemble E rounds root = some (.error fault)
    | .ok V => ∃ arena, g.assemble E rounds root = some (.ok (V.root, arena)) ∧
        arena.validator V.root = V ∧ g.visit E root = .ok arena.bodies ∧ arena.Sound g ∧
          arena.Complete g root := by
  obtain ⟨least, hdescend⟩ := exists_descend g E root
  cases hvisit : g.visit E root with
  | error fault =>
    refine ⟨least, ?_⟩
    intro rounds hrounds
    have hwalk := hdescend rounds hrounds
    rw [hvisit] at hwalk
    simp only [Graph.compileWith, hvisit, Graph.assemble, hwalk]
  | ok order =>
    obtain ⟨least', hsweep⟩ :=
      (Graph.visited_of_visit hvisit).searchAll_spec.1.exists_sweepAll
    refine ⟨max least least', ?_⟩
    intro rounds hrounds
    have hwalk := hdescend rounds (le_trans (le_max_left _ _) hrounds)
    rw [hvisit] at hwalk
    obtain ⟨arena, hwalk, rfl, hs, hcomplete, hchecks⟩ := hwalk
    have hsweep := hsweep rounds (le_trans (le_max_right _ _) hrounds)
    simp only [Graph.compileWith, hvisit, Graph.assemble, hwalk, hsweep]
    cases searchAll g.unguarded arena.bodies.length arena.bodies with
    | error id => rfl
    | ok done => exact ⟨arena, rfl, by rw [Arena.validator, hchecks], rfl, hs, hcomplete⟩

/-- A graph compiles exactly if everything that the root leads to is well-formed, and making its
validator in one walk always ends with the same validator or the same fault. -/
theorem compile_iff_wellFormed (g : Graph) (E : Engine) (root : NodeId) :
    ((∃ V, g.compileWith E root = .ok V) ↔ g.WellFormed E root) ∧
      ∃ least, ∀ rounds, least ≤ rounds → ∃ result, g.assemble E rounds root = some result ∧
        g.compileWith E root = result.map fun (slot, arena) ↦ arena.validator slot := by
  constructor
  · constructor
    · rintro ⟨V, hV⟩
      obtain ⟨order, rank, -, hcompiled, -⟩ := Graph.exists_compiled hV
      exact hcompiled.wellFormed
    · exact Graph.WellFormed.exists_compile
  · obtain ⟨least, hassemble⟩ := exists_assemble g E root
    refine ⟨least, ?_⟩
    intro rounds hrounds
    have hwalk := hassemble rounds hrounds
    cases hcompile : g.compileWith E root with
    | error fault =>
      rw [hcompile] at hwalk
      exact ⟨_, hwalk, rfl⟩
    | ok V =>
      rw [hcompile] at hwalk
      obtain ⟨arena, hwalk, hV, -⟩ := hwalk
      exact ⟨_, hwalk, congrArg Except.ok hV.symm⟩

end JsonPattern
