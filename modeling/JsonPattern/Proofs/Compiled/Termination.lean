import JsonPattern.Proofs.Graph.Table
import JsonPattern.Proofs.Validator.Calls
import JsonPattern.Proofs.Validator.Flattening
import JsonPattern.Regex.Search
import Mathlib.Data.Finset.Lattice.Fold
import Mathlib.Data.Finset.Range

/-!
# Termination

The functions of a compiled validator end on every value, also where the validator refers back to
itself. Each call that one of them makes has a smaller measure: the depth of the value decreases, or
else the rank of the checks in the relation between a check and its alternatives or flatten targets,
or else the size of the clauses. So the levels of calls within calls are bounded by the depth of the
value and the size of the validator.
-/

namespace JsonPattern

namespace Validator

/-- The size of the clauses of all checks. -/
def weight (V : Validator) : Nat := (V.checks.toList.map Check.size).sum

theorem size_check_le_weight (V : Validator) (slot : Nat) :
    (V.table.check slot).size ≤ V.weight := by
  change (V.checks.getD slot .anything).size ≤ _
  rw [Array.getD_eq_getD_getElem?]
  cases hslot : V.checks[slot]? with
  | none => exact Nat.zero_le _
  | some check =>
    have hmem : check ∈ V.checks.toList := Array.mem_toList_iff.2 (Array.mem_of_getElem? hslot)
    exact List.le_sum_of_mem (List.mem_map_of_mem hmem)

/-- The leaves below any disjunction of a validator are found in a number of rounds. -/
theorem exists_rounds {V : Validator} {rank : Nat → Nat} (h : V.table.Ranked Set.univ rank) :
    ∃ least, ∀ rounds, least ≤ rounds → ∀ slot alternatives,
      V.table.check slot = .oneOf alternatives →
        V.table.unravel rounds alternatives [] = some (V.table.splice alternatives) := by
  refine ⟨(Finset.range V.size).sup fun slot ↦ V.table.visits (V.table.check slot).refs,
    fun rounds hrounds slot alternatives hcheck ↦ ?_⟩
  have hslot : slot < V.size := by
    by_contra hslot
    simp [check_eq_anything_of_le (Nat.not_lt.1 hslot)] at hcheck
  have hle := Finset.le_sup (f := fun slot ↦ V.table.visits (V.table.check slot).refs)
    (Finset.mem_range.2 hslot)
  simp only [hcheck, Check.refs] at hle
  rw [h.unravel_eq, if_pos (hle.trans hrounds)]

end Validator

namespace Graph

variable {g : Graph} {E : Engine} {root : NodeId} {V : Validator}

/-- The functions of a compiled validator descend. Some rank of the slots decreases at alternatives
and flatten targets, and every function, performed with the right answers to the calls of smaller
measure and no answers to others, yields the right answer. So calls are answered over a number of
levels that the depth of the value, the number of checks and their size give. -/
theorem calls_descend_of_compile (h : g.compileWith E root = .ok V) :
    ∃ rank : Nat → Nat, (∀ slot, rank slot < V.size) ∧
      (∀ slot, ∀ next ∈ (V.table.check slot).unguardedRefs, rank next < rank slot) ∧
      ∃ least, ∀ rounds, least ≤ rounds →
        (∀ (call : Call Nat) (ask : (call : Call Nat) → Option call.Answer),
          (∀ call', call'.measure V.table rank < call.measure V.table rank →
            ask call' = some (V.table.answer call')) →
          V.table.perform rounds ask call = some (V.table.answer call)) ∧
        (∀ (call : Call Nat) (levels : Nat),
          (call.depth + 1) * (V.size + 1) * (max (V.weight + 2) (call.size V.table) + 1) ≤ levels →
            V.table.run rounds levels call = some (V.table.answer call)) ∧
        ∀ (path : Path) (value : Json) (levels : Nat),
          (value.depth + 1) * (V.size + 1) * (V.weight + 3) ≤ levels →
            V.table.run rounds levels (.check V.root path value) =
              some (V.validateAt path value) ∧
            V.table.run rounds levels (.fits V.root value) = some (V.fits value) ∧
            V.table.run rounds levels (.describe V.root) = some V.labels := by
  obtain ⟨rank, hranked⟩ := exists_ranked_of_compile h
  have hrank (slot : Nat) : rank slot < V.size := hranked.lt_hops slot trivial
  have hweight (slot : Nat) : (V.table.check slot).size + 2 ≤ V.weight + 2 :=
    Nat.add_le_add_right (V.size_check_le_weight slot) 2
  obtain ⟨least, hleast⟩ := Validator.exists_rounds hranked
  have hrun {rounds : Nat} (hrounds : least ≤ rounds) (call : Call Nat) {levels : Nat}
      (hlevels : (call.depth + 1) * (V.size + 1) *
        (max (V.weight + 2) (call.size V.table) + 1) ≤ levels) :
      V.table.run rounds levels call = some (V.table.answer call) :=
    Table.run_eq hranked (fun slot ↦ (hweight slot).trans (le_max_left ..))
      (hleast rounds hrounds) hrank (le_max_right ..)
      ((Call.index_lt (call.rankBy_le hrank) (le_max_right ..) le_rfl).trans_le hlevels)
  refine ⟨rank, hrank, fun slot ↦ hranked.descends slot trivial, least, ?_⟩
  intro rounds hrounds
  refine ⟨?_, fun call levels ↦ hrun hrounds call, ?_⟩
  · intro call ask hask
    exact Table.perform_eq hranked hweight (hleast rounds hrounds)
      fun call' hbelow ↦ hask call' hbelow.measure_lt
  · intro path value levels hlevels
    have hfor (call : Call Nat) (hdepth : call.depth ≤ value.depth)
        (hcall : call.size V.table ≤ V.weight + 2) :
        V.table.run rounds levels call = some (V.table.answer call) := by
      refine hrun hrounds call (le_trans ?_ hlevels)
      rw [max_eq_left hcall]
      exact Nat.mul_le_mul_right _ (Nat.mul_le_mul_right _ (Nat.succ_le_succ hdepth))
    exact ⟨hfor (.check V.root path value) le_rfl (hweight V.root),
      hfor (.fits V.root value) le_rfl (Nat.le_add_left ..),
      hfor (.describe V.root) (Nat.zero_le _) (Nat.le_add_left ..)⟩

/-- Objects that may hold an object of the same kind under `next`. -/
def chain : Graph :=
  ⟨#[some (.body (.object [.optional [.named "next" ⟨1⟩]])), some (.cyclic ⟨0⟩)]⟩

/-- The levels that are enough for a value of depth two. -/
theorem calls_descend_chain : ∃ V, chain.compileWith Regex.engine ⟨0⟩ = .ok V ∧
    ∃ least, ∀ rounds, least ≤ rounds →
      V.table.run rounds 42 (.check V.root .root
        (.object [("next", .object [("next", .null)])])) =
        some [.unexpected ((Path.root.member "next").member "next") "null" "object"] := by
  have hcompile : chain.compileWith Regex.engine ⟨0⟩ =
      .ok ⟨#[.object [.optional [.named "next" 0]]], 0⟩ := rfl
  obtain ⟨rank, -, -, least, hleast⟩ := calls_descend_of_compile hcompile
  refine ⟨_, hcompile, least, ?_⟩
  intro rounds hrounds
  exact ((hleast rounds hrounds).2.2 .root (.object [("next", .object [("next", .null)])]) 42
    (by decide)).1

end Graph

end JsonPattern
