import JsonPattern.Proofs.Compiled.Termination
import JsonPattern.Proofs.Validator.OpeningViews
import JsonPattern.Regex.Search

/-!
# What opens the parts of a compiled validator

The functions of a compiled validator that look for what opens a part end, also where the validator
refers back to itself, and their answers agree.
-/

namespace JsonPattern

namespace Graph

variable {g : Graph} {E : Engine} {root : NodeId} {V : Validator}

/-- Over enough rounds and levels a call is answered. -/
theorem exists_run_eq_of_compile (h : g.compileWith E root = .ok V) :
    ∃ rounds : Nat, ∀ call : Call Nat, ∃ levels : Nat, ∀ rounds' levels',
      rounds ≤ rounds' → levels ≤ levels' →
        V.table.run rounds' levels' call = some (V.table.answer call) := by
  obtain ⟨rank, hranked⟩ := exists_ranked_of_compile h
  have hrank (slot : Nat) : rank slot < V.size := hranked.lt_hops slot trivial
  have hweight (slot : Nat) : (V.table.check slot).size + 2 ≤ V.weight + 2 :=
    Nat.add_le_add_right (V.size_check_le_weight slot) 2
  obtain ⟨least, hleast⟩ := Validator.exists_rounds hranked
  refine ⟨least, fun call ↦ ⟨(call.depth + 1) * (V.size + 1) *
    (max (V.weight + 2) (call.size V.table) + 1), ?_⟩⟩
  intro rounds levels hrounds hlevels
  exact Table.run_eq hranked (fun slot ↦ (hweight slot).trans (le_max_left ..))
    (hleast rounds hrounds) hrank (le_max_right ..)
    ((Call.index_lt (call.rankBy_le hrank) (le_max_right ..) le_rfl).trans_le hlevels)

/-- The views of what opens a part of a compiled validator agree. A name may open the part if and
only if a check may apply to its value. The names that are present are those that may open the part,
in order, without those that no member has. A value opens the part only under a name that may open
it, and if it fits one of the checks; where there is a single check, that one decides. These are the
answers of the functions, which end. -/
theorem openingViews_agree_of_compile (h : g.compileWith E root = .ok V) (part : Part Nat)
    (name : String) (value : Json) (members : Members) :
    ((name ∈ V.table.partFirstNames part ↔ V.table.partFirstChecks name part ≠ []) ∧
      (V.table.partPresent part members).toList =
        (V.table.partFirstNames part).toList.filter (· ∈ members.names) ∧
      (V.table.partOpens name value part = true → name ∈ V.table.partFirstNames part ∧
        ∃ slot ∈ V.table.partFirstChecks name part, V.table.fits slot value = true) ∧
      ∀ slot, V.table.partFirstChecks name part = [slot] →
        V.table.partOpens name value part = V.table.fits slot value) ∧
    ∃ rounds levels, ∀ rounds' levels', rounds ≤ rounds' → levels ≤ levels' →
      V.table.run rounds' levels' (.firstNames part) = some (V.table.partFirstNames part) ∧
      V.table.run rounds' levels' (.firstChecks part name) =
        some (V.table.partFirstChecks name part) ∧
      V.table.run rounds' levels' (.opens part name value) =
        some (V.table.partOpens name value part) ∧
      ∀ slot ∈ V.table.partFirstChecks name part,
        V.table.run rounds' levels' (.fits slot value) = some (V.table.fits slot value) := by
  have haccords : Accords (V.table.fits · value) (V.table.partFirstChecks name part)
      (V.table.partOpens name value part) := V.table.accords part
  have hnames : name ∈ V.table.partFirstNames part ↔ V.table.partFirstChecks name part ≠ [] :=
    V.table.mem_partFirstNames_iff part
  refine ⟨⟨hnames, ?_, ?_, haccords.eq_fits⟩, ?_⟩
  case refine_1 =>
    refine List.filter_congr fun other _ ↦ ?_
    rw [Bool.eq_iff_iff, decide_eq_true_iff]
    exact Members.lookup_isSome_iff
  case refine_2 =>
    intro hopens
    obtain ⟨slot, hslot, hfits⟩ := haccords.exists_fits hopens
    exact ⟨hnames.2 (List.ne_nil_of_mem hslot), slot, hslot, hfits⟩
  case refine_3 =>
    obtain ⟨rounds, hrun⟩ := exists_run_eq_of_compile h
    choose levels hlevels using hrun
    let calls : List (Call Nat) := .firstNames part :: .firstChecks part name ::
      .opens part name value :: (V.table.partFirstChecks name part).map (.fits · value)
    refine ⟨rounds, (calls.map levels).sum, fun rounds' levels' hrounds hsum ↦ ?_⟩
    have hanswer (call : Call Nat) (hcall : call ∈ calls) :
        V.table.run rounds' levels' call = some (V.table.answer call) :=
      hlevels call rounds' levels' hrounds
        ((List.le_sum_of_mem (List.mem_map_of_mem hcall)).trans hsum)
    refine ⟨hanswer (.firstNames part) (by simp [calls]),
      hanswer (.firstChecks part name) (by simp [calls]),
      hanswer (.opens part name value) (by simp [calls]), fun slot hslot ↦ ?_⟩
    exact hanswer (.fits slot value) (by simp [calls, hslot])

/-- A list with ids, the last part of which has no next one. Both alternatives of its rest are
opened by the same name. -/
def trail : Graph :=
  ⟨#[some (.body (.object [.optional [.named "id" ⟨1⟩], .flatten ⟨2⟩])),
    some (.body (.type .string)), some (.body (.oneOf [⟨3⟩, ⟨4⟩])),
    some (.body (.object [.named "next" ⟨5⟩])), some (.body (.object [.named "next" ⟨6⟩])),
    some (.cyclic ⟨0⟩), some (.body (.literal .null))]⟩

/-- Two checks may apply to the next part, and an object fits one of them. One check applies to an
id, and decides. -/
theorem openingViews_agree_trail : ∃ V, trail.compileWith Regex.engine ⟨0⟩ = .ok V ∧
    V.table.partFirstChecks "next" (.view (.ref V.root)) = [0, 5] ∧
    (∃ slot ∈ V.table.partFirstChecks "next" (.view (.ref V.root)),
      V.table.fits slot (.object []) = true) ∧
    ∀ value, V.table.partOpens "id" value (.view (.ref V.root)) = V.table.fits 1 value := by
  have hcompile : trail.compileWith Regex.engine ⟨0⟩ =
      .ok ⟨#[.object [.optional [.named "id" 1], .flatten 2],
      .kind .string, .oneOf [3, 4], .object [.named "next" 0], .object [.named "next" 5],
      .literal .null], 0⟩ := rfl
  refine ⟨_, hcompile, rfl, ?_, fun value ↦ ?_⟩
  · obtain ⟨⟨-, -, hopens, -⟩, -⟩ := openingViews_agree_of_compile hcompile (.view (.ref 0)) "next"
      (.object []) []
    exact (hopens rfl).2
  · obtain ⟨⟨-, -, -, hsingle⟩, -⟩ := openingViews_agree_of_compile hcompile (.view (.ref 0)) "id"
      value []
    exact hsingle 1 rfl

end Graph

end JsonPattern
