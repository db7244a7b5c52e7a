import JsonPattern.Proofs.Compiled.Termination
import JsonPattern.Proofs.Validator.Regular
import JsonPattern.Regex.Search

/-!
# Compiled validators are regular

What is asked of a graph is found again in its validator: references are slots of the validator,
nothing is chosen among no alternatives, clauses for all members come last, and flatten targets are
objects. So the arms that the functions of a validator have for anything else are never taken.
-/

namespace JsonPattern

/-! ### Proper checks -/

section Proper

variable {E : Engine} {ρ σ : Type} (f : ρ → σ)

theorem exists_optional_of_mem_groupMap {clauses : List (Clause ρ)} {group : List (Clause σ)}
    (h : .optional group ∈ groupMap f clauses) :
    ∃ group', .optional group' ∈ clauses ∧ groupMap f group' = group := by
  rw [groupMap_eq_map] at h
  obtain ⟨clause, hclause, hmap⟩ := List.mem_map.1 h
  cases clause with
  | optional group' => exact ⟨group', hclause, Clause.optional.inj hmap⟩
  | named | many | flatten | oneOf => cases hmap

theorem exists_oneOf_of_mem_groupMap {clauses : List (Clause ρ)} {groups : List (List (Clause σ))}
    (h : .oneOf groups ∈ groupMap f clauses) :
    ∃ groups', .oneOf groups' ∈ clauses ∧ groups'.map (groupMap f) = groups := by
  rw [groupMap_eq_map] at h
  obtain ⟨clause, hclause, hmap⟩ := List.mem_map.1 h
  cases clause with
  | oneOf groups' =>
    exact ⟨groups', hclause, (groupsMap_eq_map f groups').symm.trans (Clause.oneOf.inj hmap)⟩
  | named | optional | many | flatten => cases hmap

theorem Nested.exists_of_groupMap {inner : List (Clause σ)} {outer : List (Clause ρ)}
    (h : Nested inner (groupMap f outer)) :
    ∃ inner', Nested inner' outer ∧ groupMap f inner' = inner := by
  generalize he : groupMap f outer = mapped at h
  induction h generalizing outer with
  | self => exact ⟨outer, .self outer, he⟩
  | optional hmem _ ih =>
    obtain ⟨group, hclause, hmap⟩ := exists_optional_of_mem_groupMap f (he ▸ hmem)
    obtain ⟨inner', hinner, hmapped⟩ := ih hmap
    exact ⟨inner', .optional hclause hinner, hmapped⟩
  | oneOf hmem hgroup _ ih =>
    obtain ⟨groups, hclause, rfl⟩ := exists_oneOf_of_mem_groupMap f (he ▸ hmem)
    obtain ⟨group, hgroup, hmap⟩ := List.mem_map.1 hgroup
    obtain ⟨inner', hinner, hmapped⟩ := ih hmap
    exact ⟨inner', .oneOf hclause hgroup hinner, hmapped⟩

theorem ProperClauses.map {clauses : List (Clause ρ)} (h : ProperClauses clauses) :
    ProperClauses (groupMap f clauses) := by
  constructor
  · intro list hlist before value after he
    obtain ⟨list', hlist', rfl⟩ := hlist.exists_of_groupMap
    rw [groupMap_eq_map] at he
    obtain ⟨before', rest, rfl, -, hrest⟩ := List.map_eq_append_iff.1 he
    obtain ⟨clause, after', rfl, hmany, rfl⟩ := List.map_eq_cons_iff.1 hrest
    cases clause with
    | many value' => rw [h.many_last _ hlist' before' value' after' rfl, List.map_nil]
    | named | optional | flatten | oneOf => cases hmany
  · intro list hlist groups hmem
    obtain ⟨list', hlist', rfl⟩ := hlist.exists_of_groupMap
    obtain ⟨groups', hclause, rfl⟩ := exists_oneOf_of_mem_groupMap f hmem
    exact fun hnil ↦ h.groups_ne_nil list' hlist' groups' hclause (List.map_eq_nil_iff.1 hnil)

theorem Check.Proper.map {check : Check ρ} (h : check.Proper) : (check.map f).Proper := by
  cases check with
  | object clauses => exact ProperClauses.map f h
  | oneOf alternatives => exact fun hnil ↦ h (List.map_eq_nil_iff.1 hnil)
  | kind | literal | regex | arrayOf | anything => exact h

/-- The check of a proper body is proper, and refers to what the body refers to. -/
theorem Shape.Proper.check {shape : Shape ρ} {check : Check ρ} (h : shape.Proper E)
    (hcheck : shape.check? E = some check) : check.Proper ∧ check.refs ⊆ shape.refs := by
  cases shape with
  | type name =>
    obtain rfl := Option.some.inj hcheck
    cases name <;> exact ⟨by simp [TypeName.check, Check.Proper], List.Subset.refl _⟩
  | regex source =>
    obtain ⟨r, -, rfl⟩ := Option.map_eq_some_iff.1 hcheck
    exact ⟨trivial, List.Subset.refl _⟩
  | literal | arrayOf | object | oneOf | anything =>
    obtain rfl := Option.some.inj hcheck
    exact ⟨h, List.Subset.refl _⟩

theorem Shape.eq_of_check?_eq_object {shape : Shape ρ} {clauses : List (Clause ρ)}
    (h : shape.check? E = some (.object clauses)) : shape = .object clauses := by
  cases shape with
  | object clauses' => exact congrArg Shape.object (Check.object.inj (Option.some.inj h))
  | type name => cases name <;> cases Option.some.inj h
  | regex source =>
    obtain ⟨r, -, hr⟩ := Option.map_eq_some_iff.1 h
    cases hr
  | literal | arrayOf | oneOf | anything => cases Option.some.inj h

end Proper

namespace Graph

variable {g : Graph} {E : Engine} {root : NodeId} {V : Validator}

namespace Compiled

variable {order : List NodeId} {rank : NodeId → Nat}

/-- Every check is that of the body of a node visited, with slots for its references. -/
theorem exists_shape_of_mem (h : g.Compiled E root order rank) {check : Check Nat}
    (hmem : check ∈ g.checks E order) : ∃ id ∈ order, ∃ shape check',
      g.get id = .ok (.body shape) ∧ shape.Proper E ∧ shape.check? E = some check' ∧
        check'.map (g.slot order) = check := by
  obtain ⟨id, hid, rfl⟩ := List.mem_map.1 hmem
  obtain ⟨shape, hget, -⟩ := h.visited.settled id hid
  obtain ⟨check', hcheck, hslot⟩ := h.exists_check hid hget
  refine ⟨id, hid, shape, check', hget,
    h.wellFormed.proper id (h.visited.reached id hid) shape hget, hcheck, ?_⟩
  rw [map_slot_check hget, hcheck, Option.getD_some]

/-- The slot of an id that the root leads to holds the check of the body that it stands for. -/
theorem check_slot_eq (h : g.Compiled E root order rank) (start : Nat) {id target : NodeId}
    {shape : Shape NodeId} {check : Check NodeId} (hreach : g.Reaches root id)
    (hstands : g.StandsFor id target shape) (hcheck : shape.check? E = some check) :
    g.slot order id < order.length ∧
      (Validator.table ⟨(g.checks E order).toArray, start⟩).check (g.slot order id) =
        check.map (g.slot order) := by
  have htarget : target ∈ order :=
    h.visited.mem_iff.2 ⟨hreach.trans hstands.reaches, shape, hstands.get_target⟩
  have hslot : g.slot order id = g.slot order target := by
    rw [slot, slot, hstands.resolved_eq, hstands.self.resolved_eq]
  obtain ⟨check', hcheck', hget⟩ := h.exists_check htarget hstands.get_target
  obtain rfl : check = check' := Option.some.inj (hcheck.symm.trans hcheck')
  obtain ⟨hidx, hlt⟩ := h.slot_lt htarget
  rw [hslot]
  refine ⟨hidx ▸ hlt, Validator.check_eq_of_getElem? ?_⟩
  rw [List.getElem?_toArray, hget]

/-- Objects and disjunctions of objects keep being such. -/
theorem flattenable_slot (h : g.Compiled E root order rank) {start : Nat} {id : NodeId}
    (hflat : g.Flattenable id) (hreach : g.Reaches root id) :
    (Validator.table ⟨(g.checks E order).toArray, start⟩).Flattenable (g.slot order id) := by
  induction hflat with
  | object hstands => exact .object (h.check_slot_eq start hreach hstands rfl).2
  | oneOf hstands _ ih =>
    refine .oneOf (h.check_slot_eq start hreach hstands rfl).2 fun slot hslot ↦ ?_
    obtain ⟨alternative, hmem, rfl⟩ := List.mem_map.1 hslot
    exact ih alternative hmem
      ((hreach.trans hstands.reaches).tail ⟨_, hstands.get_target, hmem⟩)

theorem regular (h : g.Compiled E root order rank) :
    Validator.Regular ⟨(g.checks E order).toArray, g.slot order root⟩ := by
  have hsize : (g.checks E order).toArray.size = order.length := by simp [checks]
  have hslot {id : NodeId} (hreach : g.Reaches root id) :
      g.slot order id < (g.checks E order).toArray.size := by
    obtain ⟨target, shape, hstands⟩ := h.wellFormed.chains_end id hreach
    have hproper := h.wellFormed.proper target (hreach.trans hstands.reaches) shape
      hstands.get_target
    obtain ⟨check, hcheck⟩ := hproper.exists_check
    exact hsize ▸ (h.check_slot_eq 0 hreach hstands hcheck).1
  constructor
  case root_lt => exact hslot .refl
  case refs_lt =>
    intro check hmem slot hslots
    obtain ⟨id, hid, shape, check', hget, hproper, hcheck, rfl⟩ :=
      h.exists_shape_of_mem (List.mem_toArray.1 hmem)
    rw [Check.refs_map] at hslots
    obtain ⟨ref, href, rfl⟩ := List.mem_map.1 hslots
    exact hslot ((h.visited.reached id hid).tail ⟨_, hget, (hproper.check hcheck).2 href⟩)
  case proper =>
    intro check hmem
    obtain ⟨id, hid, shape, check', hget, hproper, hcheck, rfl⟩ :=
      h.exists_shape_of_mem (List.mem_toArray.1 hmem)
    exact (hproper.check hcheck).1.map (g.slot order)
  case flattenable =>
    intro clauses hmem slot hslots
    obtain ⟨id, hid, shape, check', hget, hproper, hcheck, hmap⟩ :=
      h.exists_shape_of_mem (List.mem_toArray.1 hmem)
    have hreach := h.visited.reached id hid
    cases check' with
    | object clauses' =>
      obtain rfl := Check.object.inj hmap
      obtain rfl := Shape.eq_of_check?_eq_object hcheck
      rw [groupFlattenTargets_map] at hslots
      obtain ⟨target, htarget, rfl⟩ := List.mem_map.1 hslots
      exact h.flattenable_slot (h.wellFormed.flattenable id hreach clauses' hget target htarget)
        (hreach.tail ⟨_, hget, groupFlattenTargets_subset clauses' htarget⟩)
    | kind | literal | regex | arrayOf | oneOf | anything => cases hmap

end Compiled

/-- A compiled validator is regular, and its functions never take an arm that is there for other
validators: run so that they stop at such an arm, they yield what they yield anyway, over as many
levels as are enough for them. -/
theorem regular_of_compile (h : g.compileWith E root = .ok V) : V.Regular ∧
    ∃ least, ∀ rounds, least ≤ rounds → ∀ (path : Path) (value : Json) (levels : Nat),
      (value.depth + 1) * (V.size + 1) * (V.weight + 3) ≤ levels →
        V.strictRun rounds levels (.check V.root path value) = some (V.validateAt path value) ∧
        V.strictRun rounds levels (.fits V.root value) = some (V.fits value) ∧
        V.strictRun rounds levels (.describe V.root) = some V.labels := by
  obtain ⟨order, rank, -, hcompiled, rfl⟩ := exists_compiled h
  have hregular := hcompiled.regular
  obtain ⟨rank, hranked⟩ := hcompiled.exists_ranked (g.slot order root)
  generalize (⟨(g.checks E order).toArray, g.slot order root⟩ : Validator) = V at hregular hranked ⊢
  have hrank (slot : Nat) : rank slot < V.size := hranked.lt_hops slot trivial
  have hweight (slot : Nat) : (V.table.check slot).size + 2 ≤ V.weight + 2 :=
    Nat.add_le_add_right (V.size_check_le_weight slot) 2
  obtain ⟨least, hleast⟩ := Validator.exists_rounds hranked
  refine ⟨hregular, least, ?_⟩
  intro rounds hrounds path value levels hlevels
  have hroot : V.table.Sound (Set.Iio V.size) [V.root] [] :=
    .of_mem (List.forall_mem_singleton.2 hregular.root_lt)
  have hfor (call : Call Nat) (hsound : V.table.Sound (Set.Iio V.size) call.refs
      call.flattenTargets) (hdepth : call.depth ≤ value.depth)
      (hcall : call.size V.table ≤ V.weight + 2) :
      V.strictRun rounds levels call = some (V.table.answer call) :=
    hregular.strictRun_eq hranked hweight (hleast rounds hrounds) hrank hsound hcall
      ((Call.index_lt (call.rankBy_le hrank) hcall hdepth).trans_le hlevels)
  exact ⟨hfor (.check V.root path value) hroot le_rfl (hweight V.root),
    hfor (.fits V.root value) hroot le_rfl (Nat.le_add_left ..),
    hfor (.describe V.root) hroot (Nat.zero_le _) (Nat.le_add_left ..)⟩

/-- Objects with a name, or with a number and the members of an address. -/
def addressee : Graph :=
  ⟨#[some (.body (.object [.oneOf [[.named "name" ⟨1⟩], [.named "number" ⟨2⟩, .flatten ⟨3⟩]]])),
    some (.body (.type .string)), some (.body (.type .integer)),
    some (.body (.oneOf [⟨4⟩])), some (.body (.object [.named "street" ⟨1⟩]))]⟩

/-- An object with a number and a street passes without a stop on the way. -/
theorem regular_addressee : ∃ V, addressee.compileWith Regex.engine ⟨0⟩ = .ok V ∧ V.Regular ∧
    ∃ least, ∀ rounds, least ≤ rounds → V.strictRun rounds 156 (.check V.root .root
      (.object [("number", .integer 1), ("street", .string "High Street")])) = some [] := by
  have hcompile : addressee.compileWith Regex.engine ⟨0⟩ =
      .ok ⟨#[.object [.oneOf [[.named "name" 1],
      [.named "number" 2, .flatten 3]]], .kind .string, .kind .integer, .oneOf [4],
      .object [.named "street" 1]], 0⟩ := rfl
  obtain ⟨hregular, least, hleast⟩ := regular_of_compile hcompile
  refine ⟨_, hcompile, hregular, least, ?_⟩
  intro rounds hrounds
  exact (hleast rounds hrounds .root
    (.object [("number", .integer 1), ("street", .string "High Street")]) 156 (by decide)).1

end Graph

end JsonPattern
