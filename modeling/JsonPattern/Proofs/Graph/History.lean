import JsonPattern.Proofs.Graph.Growth

/-!
# Histories of graphs

A history is a list of changes, each with the response that it had: an id that was handed out, a
slot that was filled, or a fault. What is in the slots of a graph can be told from the history of
its changes alone: which ids were handed out, which of them were reserved, and which of these were
filled. One change keeps this (`Records.step`), and so do changes in turn (`Records.run`). Hence a
slot gets its pattern once: by the change that adds it, or by the first fill after its id was
reserved.

## Main definitions

* `History` : changes with the responses that they had.
* `History.Reserved`, `History.Open`, `History.Got` : what a history tells of an id.
* `Graph.Records` : a history records what is in the slots of a graph.

## Main results

* `Graph.Records.step`, `Graph.Records.run` : records are kept by one change, and by changes in
  turn.
* `Graph.slots_written_once` : slots are written once, whatever changes are made of the empty graph.
-/

namespace JsonPattern

/-- The response to a change of a graph. -/
inductive Response
  /-- An id is handed out. -/
  | handedOut (id : NodeId)
  /-- A slot is filled. -/
  | filled
  /-- A slot cannot be filled. -/
  | refused (fault : Fault)

/-- Changes with the responses that they had, the first one first. -/
abbrev History := List (Edit × Response)

namespace History

/-- The id that a response hands out. -/
def handedOut? : Response → Option NodeId
  | .handedOut id => some id
  | _ => none

/-- The ids that were handed out, in order. -/
def ids (history : History) : List NodeId := history.filterMap fun entry ↦ handedOut? entry.2

/-- An id was handed out to be filled later. -/
def Reserved (history : History) (id : NodeId) : Prop := (.reserve, .handedOut id) ∈ history

/-- A slot was filled with a pattern. -/
def Filled (history : History) (id : NodeId) (pattern : Pattern) : Prop :=
  (.fill id pattern, .filled) ∈ history

/-- An id was handed out for a pattern, or its slot was filled with the pattern. -/
def Got (history : History) (id : NodeId) (pattern : Pattern) : Prop :=
  (.add pattern, .handedOut id) ∈ history ∨ history.Filled id pattern

/-- An id was reserved, and no fill of its slot has succeeded. -/
def Open (history : History) (id : NodeId) : Prop :=
  history.Reserved id ∧ ∀ pattern, ¬ history.Filled id pattern

variable {history : History} {id : NodeId} {change : Edit} {response : Response}

theorem mem_ids_iff : id ∈ history.ids ↔ ∃ change, (change, .handedOut id) ∈ history := by
  rw [ids, List.mem_filterMap]
  constructor
  · rintro ⟨⟨change, response⟩, hmem, hid⟩
    cases response with
    | handedOut other =>
      obtain rfl := Option.some.inj hid
      exact ⟨change, hmem⟩
    | filled | refused => cases hid
  · rintro ⟨change, hmem⟩
    exact ⟨_, hmem, rfl⟩

theorem ids_concat : ids (history ++ [(change, response)]) =
    history.ids ++ (handedOut? response).toList := by
  rw [ids, List.filterMap_append, ids]
  cases response <;> rfl

end History

namespace Graph

/-- The response to a change. -/
def respond (g : Graph) : Edit → Response
  | .add _ | .reserve => .handedOut g.nextId
  | .fill id pattern =>
    match g.fill id pattern with
    | .ok _ => .filled
    | .error fault => .refused fault

/-- The history of changes in turn. -/
def history (g : Graph) : List Edit → History
  | [] => []
  | change :: changes => (change, g.respond change) :: (g.edit change).history changes

/-- A history records what is in the slots of a graph. -/
structure Records (history : History) (g : Graph) : Prop where
  /-- The ids of all slots were handed out in order. -/
  ids_eq : history.ids = (List.range g.size).map NodeId.mk
  /-- A slot has the pattern that it got. -/
  got_iff : ∀ id pattern, g.slots[id.index]? = some (some pattern) ↔ history.Got id pattern
  /-- A slot has no pattern while it is open. -/
  open_iff : ∀ id, g.slots[id.index]? = some none ↔ history.Open id

variable {g : Graph} {history : History} {id : NodeId} {pattern : Pattern}

/-! ### One change -/

theorem fill_cases (g : Graph) (id : NodeId) (pattern : Pattern) :
    (g.slots[id.index]? = some none ∧ g.respond (.fill id pattern) = .filled ∧
      g.edit (.fill id pattern) = ⟨g.slots.setIfInBounds id.index (some pattern)⟩) ∨
    (∃ other, g.slots[id.index]? = some (some other) ∧
      g.respond (.fill id pattern) = .refused ⟨id, .slotAlreadyFilled⟩ ∧
      g.edit (.fill id pattern) = g) ∨
    (g.slots[id.index]? = none ∧
      g.respond (.fill id pattern) = .refused ⟨id, .unknownPattern⟩ ∧
      g.edit (.fill id pattern) = g) := by
  rcases hslot : g.slots[id.index]? with _ | _ | other
  · exact .inr (.inr ⟨rfl, by simp [respond, fill, hslot], by simp [edit, fill, hslot]⟩)
  · exact .inl ⟨rfl, by simp [respond, fill, hslot], by simp [edit, fill, hslot]⟩
  · exact .inr (.inl ⟨other, rfl, by simp [respond, fill, hslot], by simp [edit, fill, hslot]⟩)

namespace Records

theorem mem_ids_iff (h : Records history g) : id ∈ history.ids ↔ id.index < g.size := by
  rw [h.ids_eq, List.mem_map]
  constructor
  · rintro ⟨i, hi, rfl⟩
    exact List.mem_range.1 hi
  · exact fun hid ↦ ⟨id.index, List.mem_range.2 hid, rfl⟩

/-- Nothing is recorded of the id that is handed out next. -/
theorem notMem_nextId (h : Records history g) :
    (∀ change, (change, .handedOut g.nextId) ∉ history) ∧
      ∀ pattern, ¬ history.Filled g.nextId pattern := by
  have hslot : g.slots[g.nextId.index]? = none := Array.getElem?_size
  constructor
  · intro change hmem
    exact absurd (h.mem_ids_iff.1 (History.mem_ids_iff.2 ⟨change, hmem⟩)) (lt_irrefl g.size)
  · intro pattern hfilled
    have hgot := (h.got_iff g.nextId pattern).2 (.inr hfilled)
    rw [hslot] at hgot
    cases hgot

/-- A slot is handed out, with the pattern that is added, or without one. -/
theorem handOut (h : Records history g) {change : Edit} (slot : Option Pattern)
    (hadd : ∀ pattern, change = .add pattern ↔ slot = some pattern)
    (hreserve : change = .reserve ↔ slot = none) :
    Records (history ++ [(change, .handedOut g.nextId)]) ⟨g.slots.push slot⟩ := by
  have hpush (id : NodeId) : (g.slots.push slot)[id.index]? =
      if id = g.nextId then some slot else g.slots[id.index]? := by
    rw [Array.getElem?_push]
    exact if_congr ⟨fun he ↦ congrArg NodeId.mk he, congrArg NodeId.index⟩ rfl rfl
  constructor
  case ids_eq =>
    rw [History.ids_concat, h.ids_eq]
    have hsize : (Graph.mk (g.slots.push slot)).size = g.size + 1 := Array.size_push ..
    rw [hsize, List.range_succ, List.map_append]
    rfl
  case got_iff =>
    intro id pattern
    rw [hpush]
    split
    · next hid =>
      subst hid
      obtain ⟨hids, hfills⟩ := h.notMem_nextId
      simp only [History.Filled] at hfills
      simp [History.Got, History.Filled, hids, hfills, ← hadd, eq_comm]
    · next hid =>
      rw [h.got_iff]
      simp [History.Got, History.Filled, hid]
  case open_iff =>
    intro id
    rw [hpush]
    split
    · next hid =>
      subst hid
      obtain ⟨hids, hfills⟩ := h.notMem_nextId
      simp only [History.Filled] at hfills
      simp [History.Open, History.Reserved, History.Filled, hids, hfills, ← hreserve, eq_comm]
    · next hid =>
      rw [h.open_iff]
      simp [History.Open, History.Reserved, History.Filled, hid]

/-- A slot that is open is filled. -/
theorem fillOpen (h : Records history g) (hslot : g.slots[id.index]? = some none)
    (pattern : Pattern) :
    Records (history ++ [(.fill id pattern, .filled)])
      ⟨g.slots.setIfInBounds id.index (some pattern)⟩ := by
  have hlt : id.index < g.slots.size := (Array.getElem?_eq_some_iff.1 hslot).1
  have hset (other : NodeId) : (g.slots.setIfInBounds id.index (some pattern))[other.index]? =
      if other = id then some (some pattern) else g.slots[other.index]? := by
    rw [Array.getElem?_setIfInBounds, if_pos hlt]
    exact if_congr ⟨fun he ↦ congrArg NodeId.mk he.symm, fun he ↦ congrArg NodeId.index he.symm⟩
      rfl rfl
  constructor
  case ids_eq =>
    rw [History.ids_concat, h.ids_eq]
    simp [History.handedOut?, size]
  case got_iff =>
    intro other body
    rw [hset]
    split
    · next hother =>
      subst hother
      have hgot : ¬ history.Got other body := by simp [← h.got_iff, hslot]
      simp only [History.Got, History.Filled, not_or] at hgot
      simp [History.Got, History.Filled, hgot, eq_comm]
    · next hother =>
      rw [h.got_iff]
      simp [History.Got, History.Filled, hother]
  case open_iff =>
    intro other
    rw [hset]
    split
    · next hother =>
      refine iff_of_false (by simp) fun hopen ↦ hopen.2 pattern ?_
      rw [hother]
      exact List.mem_append_right _ List.mem_cons_self
    · next hother =>
      rw [h.open_iff]
      simp [History.Open, History.Reserved, History.Filled, hother]

/-- A slot cannot be filled. -/
theorem refuse (h : Records history g) (change : Edit) (fault : Fault) :
    Records (history ++ [(change, .refused fault)]) g where
  ids_eq := by rw [History.ids_concat, h.ids_eq]; exact List.append_nil _
  got_iff id pattern := by rw [h.got_iff]; simp [History.Got, History.Filled]
  open_iff id := by
    rw [h.open_iff]
    simp [History.Open, History.Reserved, History.Filled]

/-- One change, whatever comes of it. -/
theorem step (h : Records history g) (change : Edit) :
    Records (history ++ [(change, g.respond change)]) (g.edit change) := by
  cases change with
  | add pattern => exact h.handOut (some pattern) (by simp) (by simp)
  | reserve => exact h.handOut none (by simp) (by simp)
  | fill id pattern =>
    rcases g.fill_cases id pattern with ⟨hslot, hrespond, hedit⟩ | ⟨_, _, hrespond, hedit⟩ |
      ⟨_, hrespond, hedit⟩
    · rw [hrespond, hedit]
      exact h.fillOpen hslot pattern
    all_goals
      rw [hrespond, hedit]
      exact h.refuse _ _

/-- Changes in turn. -/
theorem run (h : Records history g) (changes : List Edit) :
    Records (history ++ g.history changes) (g.edits changes) := by
  induction changes generalizing history g with
  | nil => rwa [Graph.history, List.append_nil]
  | cons change changes ih =>
    rw [Graph.history, List.append_cons]
    exact ih (h.step change)

end Records

/-- The graph that changes make is recorded by their history. -/
theorem records_history (changes : List Edit) :
    Records (empty.history changes) (empty.edits changes) := by
  have hempty : Records [] empty := by
    constructor
    · rfl
    · simp [empty, History.Got, History.Filled]
    · simp [empty, History.Open, History.Reserved]
  exact hempty.run changes

/-! ### Slots -/

theorem get_eq_unfilledSlot_iff :
    g.get id = .error ⟨id, .unfilledSlot⟩ ↔ g.slots[id.index]? = some none := by
  rw [get]
  split <;> simp [*]

theorem get_eq_unknownPattern_iff :
    g.get id = .error ⟨id, .unknownPattern⟩ ↔ ¬ id.index < g.size := by
  rw [size, not_lt, ← Array.getElem?_eq_none_iff, get]
  split <;> simp [*]

theorem size_edit_fill : (g.edit (.fill id pattern)).size = g.size := by
  rcases g.fill_cases id pattern with ⟨-, -, hedit⟩ | ⟨-, -, -, hedit⟩ | ⟨-, -, hedit⟩
  · rw [hedit]
    exact Array.size_setIfInBounds
  all_goals rw [hedit]

theorem Records.respond_fill_eq_filled_iff (h : Records history g) :
    g.respond (.fill id pattern) = .filled ↔ history.Open id := by
  rw [← h.open_iff]
  rcases g.fill_cases id pattern with ⟨hslot, hrespond, -⟩ | ⟨_, hslot, hrespond, -⟩ |
    ⟨hslot, hrespond, -⟩ <;> simp [hslot, hrespond]

/-- A fill that is refused changes nothing. Its fault tells whether the id was handed out. -/
theorem Records.of_respond_fill_eq_refused (h : Records history g) {fault : Fault}
    (hrefused : g.respond (.fill id pattern) = .refused fault) :
    g.edit (.fill id pattern) = g ∧
      fault = ⟨id, if id ∈ history.ids then .slotAlreadyFilled else .unknownPattern⟩ := by
  have hids : id ∈ history.ids ↔ id.index < g.slots.size := h.mem_ids_iff
  rcases g.fill_cases id pattern with ⟨-, hrespond, -⟩ | ⟨_, hslot, hrespond, hedit⟩ |
    ⟨hslot, hrespond, hedit⟩
  · rw [hrespond] at hrefused
    cases hrefused
  · rw [hrespond] at hrefused
    cases hrefused
    rw [if_pos (hids.2 (Array.getElem?_eq_some_iff.1 hslot).1)]
    exact ⟨hedit, rfl⟩
  · rw [hrespond] at hrefused
    cases hrefused
    rw [if_neg fun hid ↦ not_lt.2 (Array.getElem?_eq_none_iff.1 hslot) (hids.1 hid)]
    exact ⟨hedit, rfl⟩

/-- Slots are written once, whatever changes are made of the empty graph. Ids are handed out in
order, the next one by the next change that adds or reserves, while a fill hands out none. A slot
can be filled if and only if it is open: its id was reserved, and no fill of it has succeeded. The
pattern of a slot is the one that it got, and it stays whatever is changed later. An id without a
pattern is open, or else it was never handed out. A fill that is refused changes nothing; its fault
is that the id was never handed out, or else that the slot is filled already. -/
theorem slots_written_once (changes : List Edit) :
    let g := empty.edits changes
    let history := empty.history changes
    (history.ids = (List.range g.size).map NodeId.mk ∧
      (∀ pattern, g.respond (.add pattern) = .handedOut ⟨g.size⟩ ∧
        (g.edit (.add pattern)).size = g.size + 1) ∧
      (g.respond .reserve = .handedOut ⟨g.size⟩ ∧ (g.edit .reserve).size = g.size + 1) ∧
      ∀ id pattern, (g.edit (.fill id pattern)).size = g.size) ∧
    (∀ id pattern, g.respond (.fill id pattern) = .filled ↔ history.Open id) ∧
    (∀ id pattern, g.get id = .ok pattern ↔ history.Got id pattern) ∧
    (∀ id pattern later, g.get id = .ok pattern → (g.edits later).get id = .ok pattern) ∧
    (∀ id, g.get id = .error ⟨id, .unfilledSlot⟩ ↔ history.Open id) ∧
    (∀ id, g.get id = .error ⟨id, .unknownPattern⟩ ↔ id ∉ history.ids) ∧
    ∀ id pattern fault, g.respond (.fill id pattern) = .refused fault →
      g.edit (.fill id pattern) = g ∧
        fault = ⟨id, if id ∈ history.ids then .slotAlreadyFilled else .unknownPattern⟩ := by
  intro g history
  have h : Records history g := records_history changes
  refine ⟨⟨h.ids_eq, fun pattern ↦ ⟨rfl, Array.size_push ..⟩, ⟨rfl, Array.size_push ..⟩,
    fun id pattern ↦ size_edit_fill⟩, fun id pattern ↦ h.respond_fill_eq_filled_iff, ?_, ?_, ?_, ?_,
    fun id pattern fault ↦ h.of_respond_fill_eq_refused⟩
  · intro id pattern
    rw [get_eq_ok_iff, h.got_iff]
  · intro id pattern later
    exact g.extends_edits later id pattern
  · intro id
    rw [get_eq_unfilledSlot_iff, h.open_iff]
  · intro id
    rw [get_eq_unknownPattern_iff, h.mem_ids_iff]

/-- A slot is filled before its id exists, then after it was reserved, and then once more. In
between a reference to it is added. -/
def lateBody : List Edit :=
  [.fill ⟨0⟩ (.body .anything), .reserve, .add (.cyclic ⟨0⟩), .fill ⟨0⟩ (.body (.arrayOf ⟨1⟩)),
    .fill ⟨0⟩ (.body .anything)]

/-- The second attempt counts, whatever comes later. -/
theorem slots_written_once_lateBody :
    (empty.edits lateBody).respond (.fill ⟨1⟩ (.body .anything)) =
        .refused ⟨⟨1⟩, .slotAlreadyFilled⟩ ∧
      (empty.edits lateBody).edit (.fill ⟨1⟩ (.body .anything)) = empty.edits lateBody ∧
      ∀ later, ((empty.edits lateBody).edits later).get ⟨0⟩ = .ok (.body (.arrayOf ⟨1⟩)) := by
  obtain ⟨-, -, -, hkept, -, -, hrefused⟩ := slots_written_once lateBody
  exact ⟨rfl, (hrefused ⟨1⟩ (.body .anything) _ rfl).1, fun later ↦ hkept ⟨0⟩ _ later rfl⟩

end Graph

end JsonPattern
