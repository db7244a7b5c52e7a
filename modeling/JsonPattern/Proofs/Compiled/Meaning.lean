import JsonPattern.Proofs.Graph.Assembly
import JsonPattern.Proofs.Graph.Table
import JsonPattern.Regex.Search

/-!
# Meaning

A validator means what the graph means that it is compiled from. The slot that the memo gives to an
id, while the graph is walked, holds a check with the same failures, the same shallow look and the
same labels as the pattern behind the id, read off the graph itself.
-/

namespace JsonPattern

namespace Table

variable {ρ σ : Type} [DecidableEq ρ] [DecidableEq σ]

/-- A reference means the same in one table as another reference in another table. -/
structure Agrees (T : Table ρ) (r : ρ) (U : Table σ) (s : σ) : Prop where
  /-- The same failures in the same order. -/
  failures_eq : ∀ path value, T.failures r path value = U.failures s path value
  /-- The same shallow look. -/
  fits_eq : ∀ value, T.fits r value = U.fits s value
  /-- The same labels. -/
  labels_eq : T.labels r = U.labels s

/-- References to the same check agree. -/
theorem agrees_of_check_eq {T : Table ρ} {r s : ρ} (h : T.check r = T.check s) :
    T.Agrees r T s where
  failures_eq path value := by
    rw [failures, failures, failuresWithin]
    cases T.hops with
    | zero => rfl
    | succ hops => rw [failuresHere, failuresHere, h]
  fits_eq value := by
    rw [fits, fits]
    cases T.hops with
    | zero => rfl
    | succ hops => rw [fitsWithin, fitsWithin, h]
  labels_eq := by
    rw [labels, labels]
    cases T.hops with
    | zero => rfl
    | succ hops => rw [labelsWithin, labelsWithin, h]

theorem Agrees.trans {τ : Type} [DecidableEq τ] {T : Table ρ} {U : Table σ} {W : Table τ} {r : ρ}
    {s : σ} {t : τ} (h : T.Agrees r U s) (h' : U.Agrees s W t) : T.Agrees r W t :=
  ⟨fun path value ↦ (h.failures_eq path value).trans (h'.failures_eq path value),
    fun value ↦ (h.fits_eq value).trans (h'.fits_eq value), h.labels_eq.trans h'.labels_eq⟩

theorem Agrees.symm {T : Table ρ} {U : Table σ} {r : ρ} {s : σ} (h : T.Agrees r U s) :
    U.Agrees s T r :=
  ⟨fun path value ↦ (h.failures_eq path value).symm, fun value ↦ (h.fits_eq value).symm,
    h.labels_eq.symm⟩

/-- A table that covers another one agrees with it. -/
theorem Covers.agrees {T : Table ρ} {U : Table σ} {f : ρ → σ} {nodes : Set ρ} {rank : ρ → Nat}
    (h : T.Covers U f nodes rank) {r : ρ} (hr : r ∈ nodes) : U.Agrees (f r) T r :=
  ⟨fun _ _ ↦ h.failures_eq hr, fun _ ↦ h.fits_eq hr, h.labels_eq hr⟩

end Table

namespace Graph

variable {g : Graph} {E : Engine} {root : NodeId} {V : Validator}

/-- An id is the root, or a body that the root leads to refers to it. -/
def Met (g : Graph) (root id : NodeId) : Prop :=
  id = root ∨ ∃ owner shape, g.Reaches root owner ∧ g.get owner = .ok (.body shape) ∧
    id ∈ shape.refs

/-- The slot of an id that the root leads to agrees with the id in the graph. -/
theorem Compiled.agrees {order : List NodeId} {rank : NodeId → Nat}
    (h : g.Compiled E root order rank) {hops : Nat} (hhops : g.size ≤ hops) {id : NodeId}
    (hid : g.Reaches root id) (start : Nat) :
    (Validator.table ⟨(g.checks E order).toArray, start⟩).Agrees (g.slot order id)
      (g.tableWithin E hops) id := by
  obtain ⟨target, hmem, shape, hstands⟩ := h.visited.standsFor_of_reaches hid
  have hcovers := h.covers (h.visited.distinct.length_le.trans hhops) start
  have hslot : g.slot order target = g.slot order id := by
    rw [slot, slot, hstands.resolved_eq, hstands.self.resolved_eq]
  have hcheck : (g.tableWithin E hops).check target = (g.tableWithin E hops).check id :=
    hstands.check_eq.symm
  exact hslot ▸ (hcovers.agrees hmem).trans (Table.agrees_of_check_eq hcheck)

/-- The memo has met every id that is met. -/
theorem Visited.exists_memo {arena : Arena} (h : g.Visited E root arena.bodies)
    (hcomplete : arena.Complete g root) {id : NodeId} (hid : g.Met root id) :
    ∃ slot, arena.memo id = some slot := by
  rcases hid with rfl | ⟨owner, shape, howner, hget, hid⟩
  · exact hcomplete.root_met
  · have hmem : owner ∈ arena.bodies := h.mem_iff.2 ⟨howner, shape, hget⟩
    exact hcomplete.refs_met owner hmem id (shape_eq_of_get hget ▸ hid)

/-- A compiled validator means what the graph means. Of the ids that the root leads to, the memo
has met the root, the nodes with bodies and what their bodies refer to; it gives one slot to an id
and to the node that the id stands for, and this slot agrees with the id in the graph, over
whatever number of hops from the size of the graph on. -/
theorem agrees_of_compile (h : g.compileWith E root = .ok V) :
    ∃ least, ∀ rounds, least ≤ rounds → ∃ arena,
      g.assemble E rounds root = some (.ok (V.root, arena)) ∧ arena.validator V.root = V ∧
      (∀ id, g.Reaches root id → ∃ slot, arena.memo (g.resolved id) = some slot ∧
        (g.Met root id → arena.memo id = some slot) ∧
        (∀ other, arena.memo id = some other → other = slot) ∧
        ∀ hops, g.size ≤ hops → V.table.Agrees slot (g.tableWithin E hops) id) ∧
      ∀ hops, g.size ≤ hops →
        (∀ path value, V.validateAt path value = (g.tableWithin E hops).failures root path value) ∧
        (∀ value, V.fits value = (g.tableWithin E hops).fits root value) ∧
        V.labels = (g.tableWithin E hops).labels root := by
  obtain ⟨least, hleast⟩ := exists_assemble g E root
  refine ⟨least, ?_⟩
  intro rounds hrounds
  have hassemble := hleast rounds hrounds
  rw [h] at hassemble
  obtain ⟨arena, hwalk, hvalidator, hvisit, hsound, hcomplete⟩ := hassemble
  obtain ⟨order, rank, hvisit', hcompiled, rfl⟩ := exists_compiled h
  obtain rfl : arena.bodies = order := Except.ok.inj (hvisit.symm.trans hvisit')
  refine ⟨arena, hwalk, hvalidator, ?_, ?_⟩
  · intro id hid
    obtain ⟨target, hmem, shape, hstands⟩ := hcompiled.visited.standsFor_of_reaches hid
    obtain ⟨slot, hslot⟩ := hsound.exists_memo target hmem
    have hslot_eq : slot = g.slot arena.bodies id := by
      rw [hsound.slot_of_memo hslot, Graph.slot, Graph.slot, hstands.resolved_eq,
        hstands.self.resolved_eq]
    subst hslot_eq
    refine ⟨g.slot arena.bodies id, hstands.resolved_eq ▸ hslot, fun hmet ↦ ?_,
      fun other ↦ hsound.slot_of_memo, fun hops hhops ↦ hcompiled.agrees hhops hid _⟩
    obtain ⟨other, hother⟩ := hcompiled.visited.exists_memo hcomplete hmet
    rw [hother, hsound.slot_of_memo hother]
  · intro hops hhops
    obtain ⟨hfailures, hfits, hlabels⟩ := hcompiled.agrees hhops .refl (g.slot arena.bodies root)
    exact ⟨hfailures, hfits, hlabels⟩

/-- Strings, and arrays of what is matched by the whole. -/
def nest : Graph :=
  ⟨#[some (.body (.oneOf [⟨1⟩, ⟨2⟩])), some (.body (.type .string)), some (.body (.arrayOf ⟨3⟩)),
    some (.cyclic ⟨0⟩)]⟩

/-- The slot of the reference back to the root. -/
theorem agrees_nest : ∃ V, nest.compileWith Regex.engine ⟨0⟩ = .ok V ∧
    ∃ least, ∀ rounds, least ≤ rounds → ∃ arena slot,
      nest.assemble Regex.engine rounds ⟨0⟩ = some (.ok (V.root, arena)) ∧
      arena.memo ⟨3⟩ = some slot ∧
      V.table.failures slot .root (.array [.string "a", .null]) =
        [.unexpectedOf (Path.root.item 1) "null" (.ofList ["string", "array"])] := by
  have hcompile : nest.compileWith Regex.engine ⟨0⟩ =
      .ok ⟨#[.oneOf [1, 2], .kind .string, .arrayOf 0], 0⟩ := rfl
  obtain ⟨least, hleast⟩ := agrees_of_compile hcompile
  refine ⟨_, hcompile, least, ?_⟩
  intro rounds hrounds
  obtain ⟨arena, hassemble, -, hslots, -⟩ := hleast rounds hrounds
  have hreach : nest.Reaches ⟨0⟩ ⟨2⟩ :=
    .single ⟨.body (.oneOf [⟨1⟩, ⟨2⟩]), rfl, List.mem_cons_of_mem _ List.mem_cons_self⟩
  have hback : nest.Mentions ⟨2⟩ ⟨3⟩ := ⟨.body (.arrayOf ⟨3⟩), rfl, List.mem_cons_self⟩
  obtain ⟨slot, -, hmet, -, hagrees⟩ := hslots ⟨3⟩ (hreach.tail hback)
  refine ⟨arena, slot, hassemble, hmet (.inr ⟨⟨2⟩, _, hreach, rfl, List.mem_cons_self⟩), ?_⟩
  rw [(hagrees _ le_rfl).failures_eq]
  rfl

end Graph

end JsonPattern
