import JsonPattern.Proofs.Compiled.Regularity
import JsonPattern.Proofs.Validator.Flattening
import JsonPattern.Regex.Search

/-!
# Compiled disjunctions flattened

The loop that finds the leaves below slots of a compiled validator keeps a stack of slots, the next
one at the end. It never looks beyond the checks, and it ends with the flattening of the slots,
every leaf where it is met first, however disjunctions share their alternatives.
-/

namespace JsonPattern

namespace Validator

variable {V : Validator} {rank : Nat → Nat}

/-- A stack of slots is unravelled from its end. -/
theorem unstack_eq (h : V.table.Ranked (Set.Iio V.size) rank) (rounds : Nat) {pending : List Nat}
    (hpending : ∀ slot ∈ pending, slot < V.size) (done : List Nat) :
    V.unstack rounds pending.reverse.toArray done.toArray =
      (V.table.unravel rounds pending done).map List.toArray := by
  induction rounds generalizing pending done with
  | zero => cases pending <;> simp [unstack, Table.unravel]
  | succ rounds ih =>
    cases pending with
    | nil => rfl
    | cons slot pending =>
      obtain ⟨hslot, hpending⟩ := List.forall_mem_cons.1 hpending
      have hstack : (slot :: pending).reverse.toArray = pending.reverse.toArray.push slot := by
        simp
      have hcheck : V.checks[slot]? = some (V.table.check slot) := by
        rw [Array.getElem?_eq_getElem hslot, check_eq_of_getElem? (Array.getElem?_eq_getElem hslot)]
      rw [hstack, unstack, Array.back?_push, Array.pop_push, Table.unravel]
      simp only [hcheck]
      cases hkind : V.table.check slot with
      | oneOf alternatives =>
        have halternatives : ∀ a ∈ alternatives ++ pending, a < V.size := fun a ha ↦
          (List.mem_append.1 ha).elim (fun ha ↦ (h.mem_of_oneOf hslot hkind ha).1) (hpending a)
        have happend : pending.reverse.toArray ++ alternatives.reverse =
            (alternatives ++ pending).reverse.toArray := by
          simp
        simp only [happend]
        exact ih halternatives done
      | kind | literal | regex | arrayOf | object | anything =>
        have hdone : (if slot ∈ done.toArray then done.toArray else done.toArray.push slot) =
            (if slot ∈ done then done else done ++ [slot]).toArray := by
          simp only [List.mem_toArray]
          split <;> simp
        simp only [hdone]
        exact ih hpending _

end Validator

namespace Graph

variable {g : Graph} {E : Engine} {root : NodeId} {V : Validator}

/-- The loop that splices disjunctions finds what they are flattened to. One function flattens the
checks of a compiled validator. From any list of slots the loop looks at every check that is met
where they are flattened, as often as it is met, and ends after as many rounds. What it finds is
what splicing finds, the flattening of the slots with every repeated leaf dropped after its first
occurrence. These are the leaves below the slots, all of them, each once and none of them a
disjunction, in the order in which they first occur. -/
theorem splicing_flattens_of_compile (h : g.compileWith E root = .ok V) :
    ∃ (flat : Nat → List Nat) (visits : Nat → Nat),
      (∀ other, V.table.Flattens other ↔ other = flat) ∧ V.table.Counts visits ∧
      ∀ slots : List Nat, (∀ slot ∈ slots, slot < V.size) →
        (∀ rounds, V.unstack rounds slots.reverse.toArray #[] =
          if (slots.map visits).sum ≤ rounds then some (V.table.splice slots).toArray else none) ∧
        V.table.splice slots = (slots.flatMap flat).eraseDups ∧
        (V.table.splice slots).Nodup ∧
        (∀ leaf, leaf ∈ V.table.splice slots ↔ ∃ slot ∈ slots, V.table.IsLeafBelow slot leaf) ∧
        (∀ leaf ∈ V.table.splice slots, ∀ alternatives,
          V.table.check leaf ≠ .oneOf alternatives) ∧
        ∀ a ∈ V.table.splice slots, ∀ b ∈ V.table.splice slots,
          (V.table.splice slots).idxOf a < (V.table.splice slots).idxOf b ↔
            (slots.flatMap flat).idxOf a < (slots.flatMap flat).idxOf b := by
  obtain ⟨order, rank, -, hcompiled, rfl⟩ := exists_compiled h
  have hregular := hcompiled.regular
  obtain ⟨rank, hranked⟩ := hcompiled.exists_ranked (g.slot order root)
  generalize (⟨(g.checks E order).toArray, g.slot order root⟩ : Validator) = V at hregular hranked ⊢
  refine ⟨V.table.leavesWithin V.table.hops, V.table.visitsWithin V.table.hops,
    fun other ↦ hranked.flattens_iff, hranked.counts_visitsWithin, ?_⟩
  intro slots hslots
  have hsplice := V.table.splice_eq_eraseDups slots
  have hmem (leaf : Nat) : leaf ∈ V.table.splice slots ↔
      ∃ slot ∈ slots, V.table.IsLeafBelow slot leaf :=
    hranked.mem_splice_iff fun _ _ ↦ trivial
  refine ⟨fun rounds ↦ ?_, hsplice, Table.splice_nodup slots, hmem, ?_, ?_⟩
  case refine_1 =>
    have hloop := Validator.unstack_eq (hregular.ranked hranked) rounds hslots []
    rw [hloop, hranked.unravel_eq, apply_ite (Option.map List.toArray)]
    rfl
  case refine_2 =>
    intro leaf hleaf
    obtain ⟨slot, -, hbelow⟩ := (hmem leaf).1 hleaf
    exact hbelow.check_ne
  case refine_3 =>
    intro a ha b hb
    rw [Table.mem_splice_iff_mem_leaves] at ha hb
    rw [hsplice]
    exact idxOf_eraseDups_lt_iff ha hb

/-- Disjunctions that share alternatives, and one of which shares a disjunction with another. -/
def thicket : Graph :=
  ⟨#[some (.body (.oneOf [⟨1⟩, ⟨2⟩, ⟨3⟩])), some (.body (.oneOf [⟨4⟩, ⟨5⟩])),
    some (.body (.oneOf [⟨5⟩, ⟨3⟩])), some (.body (.type .string)), some (.body (.literal .null)),
    some (.body (.oneOf [⟨6⟩, ⟨4⟩])), some (.body (.type .boolean))]⟩

/-- The shared disjunction is opened twice, so eleven checks are looked at; its leaves are found
once. -/
theorem splicing_flattens_thicket : ∃ V, thicket.compileWith Regex.engine ⟨0⟩ = .ok V ∧
    V.table.check V.root = .oneOf [1, 5, 6] ∧
    V.unstack 11 #[6, 5, 1] #[] = some #[2, 4, 6] ∧ V.unstack 10 #[6, 5, 1] #[] = none := by
  have hcompile : thicket.compileWith Regex.engine ⟨0⟩ =
      .ok ⟨#[.oneOf [1, 5, 6], .oneOf [2, 3], .literal .null,
      .oneOf [4, 2], .kind .boolean, .oneOf [3, 6], .kind .string], 0⟩ := rfl
  obtain ⟨flat, visits, -, hcounts, hslots⟩ := splicing_flattens_of_compile hcompile
  obtain ⟨hloop, -⟩ := hslots [1, 5, 6] (by decide)
  have hleaf : visits 2 = 1 ∧ visits 4 = 1 ∧ visits 6 = 1 := ⟨hcounts 2, hcounts 4, hcounts 6⟩
  have hshared : visits 3 = [visits 4, visits 2].sum + 1 := hcounts 3
  have hfirst : visits 1 = [visits 2, visits 3].sum + 1 := hcounts 1
  have hsecond : visits 5 = [visits 3, visits 6].sum + 1 := hcounts 5
  have hvisits : ([1, 5, 6].map visits).sum = 11 := by simp [hfirst, hsecond, hshared, hleaf]
  rw [hvisits] at hloop
  exact ⟨_, hcompile, rfl, hloop 11, hloop 10⟩

end Graph

end JsonPattern
