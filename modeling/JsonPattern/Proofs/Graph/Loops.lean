import JsonPattern.Graph.Assembly
import JsonPattern.Proofs.Graph.Compile

/-!
# Loops of the walk

The loops that count their rounds find what the definitions with a budget find, for every number of
rounds that is large enough. A chase meets a reference twice exactly if the chain is endless; the
sifting and the sweep follow the runs `Graph.FlattenTest` and `Sweep`, each of which ends.
-/

namespace JsonPattern

namespace Graph

variable {g : Graph}

/-! ### Chasing references -/

/-- A chase ends: the references followed are different nodes. -/
theorem exists_chase {origin id : NodeId} {rounds : Nat} {seen : List NodeId}
    (hseen : g.Distinct seen) (hrounds : g.size < rounds + seen.length) :
    ∃ outcome, g.chase origin rounds seen id = some outcome := by
  induction rounds generalizing seen id with
  | zero =>
    have := hseen.length_le
    omega
  | succ rounds ih =>
    simp only [chase]
    split
    · next fault h => exact ⟨_, rfl⟩
    · next shape h => exact ⟨_, rfl⟩
    · next target h =>
      split
      · exact ⟨_, rfl⟩
      · next hnew =>
        exact ih (hseen.cons (index_lt_of_get h) hnew) (by simp; omega)

/-- A chase that does not report an endless chain has found the end of the chain. -/
theorem chainEnds_of_chase {origin id : NodeId} {rounds : Nat} {seen : List NodeId}
    {outcome : Except Fault (NodeId × Shape NodeId)}
    (h : g.chase origin rounds seen id = some outcome)
    (hne : outcome ≠ .error ⟨origin, .endlessReference⟩) : g.ChainEnds id outcome := by
  induction rounds generalizing seen id with
  | zero => cases h
  | succ rounds ih =>
    simp only [chase] at h
    split at h
    · next fault hget => cases h; exact .fault hget
    · next shape hget => cases h; exact .body hget
    · next target hget =>
      split at h
      · cases h; exact absurd rfl hne
      · exact .cyclic hget (ih h)

/-- A chase along a chain that ends finds the end, if it has followed none of its references. -/
theorem ChainEnds.chase_eq {origin id : NodeId} {rounds : Nat} {seen : List NodeId}
    {outcome outcome' : Except Fault (NodeId × Shape NodeId)} (h : g.ChainEnds id outcome)
    (hseen : ∀ x ∈ seen, ¬ Relation.ReflTransGen g.Links id x)
    (hchase : g.chase origin rounds seen id = some outcome') : outcome' = outcome := by
  induction h generalizing rounds seen with
  | body h =>
    cases rounds with
    | zero => cases hchase
    | succ rounds => simpa [chase, h, eq_comm] using hchase
  | fault h =>
    cases rounds with
    | zero => cases hchase
    | succ rounds => simpa [chase, h, eq_comm] using hchase
  | @cyclic id next outcome h rest ih =>
    cases rounds with
    | zero => cases hchase
    | succ rounds =>
      have hid : id ∉ seen := fun hmem ↦ hseen id hmem .refl
      simp only [chase, h, if_neg hid] at hchase
      refine ih (List.forall_mem_cons.2 ⟨?_, ?_⟩) hchase
      · intro hback
        exact (ChainEnds.cyclic h rest).not_revisit (.head' h hback)
      · intro x hx hback
        exact hseen x hx (.head h hback)

/-- A chase yields what an id stands for, if it yields anything. -/
theorem eq_resolve_of_chaseFrom {rounds : Nat} {id : NodeId}
    {outcome : Except Fault (NodeId × Shape NodeId)}
    (hchase : g.chaseFrom rounds id = some outcome) : outcome = g.resolve id := by
  by_cases hends : ∃ outcome, g.ChainEnds id outcome
  · obtain ⟨outcome', hends⟩ := hends
    rw [hends.resolve_eq, hends.chase_eq (by simp) hchase]
  · rw [resolve_eq_endless hends]
    by_contra hne
    exact hends ⟨outcome, chainEnds_of_chase hchase hne⟩

/-- With more rounds than the graph has slots, a chase finds what an id stands for. -/
theorem chaseFrom_eq {rounds : Nat} (hrounds : g.size < rounds) (id : NodeId) :
    g.chaseFrom rounds id = some (g.resolve id) := by
  obtain ⟨outcome, hchase⟩ : ∃ outcome, g.chaseFrom rounds id = some outcome :=
    exists_chase .nil (by simpa using hrounds)
  rw [hchase, eq_resolve_of_chaseFrom hchase]

/-! ### Sifting flatten targets -/

theorem FlattenTest.exists_sift {owner : NodeId} {pending seen : List NodeId}
    {result : Except Fault Unit} (h : g.FlattenTest owner pending seen result) :
    ∃ least, ∀ rounds, g.size < rounds → ∀ left, least ≤ left →
      g.sift rounds owner left pending seen = some result := by
  induction h with
  | done seen => exact ⟨0, fun rounds _ left _ ↦ by cases left <;> rfl⟩
  | astray h =>
    refine ⟨1, ?_⟩
    intro rounds hrounds left hleft
    obtain ⟨left, rfl⟩ := Nat.exists_eq_add_of_le' hleft
    simp [sift, chaseFrom_eq hrounds, h]
  | again h hmem rest ih =>
    obtain ⟨least, ih⟩ := ih
    refine ⟨least + 1, ?_⟩
    intro rounds hrounds left hleft
    obtain ⟨left, rfl⟩ := Nat.exists_eq_add_of_le' (Nat.le_of_add_left_le hleft)
    simp only [sift, chaseFrom_eq hrounds, h.resolve_eq, if_pos hmem]
    exact ih rounds hrounds left (by omega)
  | object h hnew rest ih =>
    obtain ⟨least, ih⟩ := ih
    refine ⟨least + 1, ?_⟩
    intro rounds hrounds left hleft
    obtain ⟨left, rfl⟩ := Nat.exists_eq_add_of_le' (Nat.le_of_add_left_le hleft)
    simp only [sift, chaseFrom_eq hrounds, h.resolve_eq, if_neg hnew]
    exact ih rounds hrounds left (by omega)
  | oneOf h hnew rest ih =>
    obtain ⟨least, ih⟩ := ih
    refine ⟨least + 1, ?_⟩
    intro rounds hrounds left hleft
    obtain ⟨left, rfl⟩ := Nat.exists_eq_add_of_le' (Nat.le_of_add_left_le hleft)
    simp only [sift, chaseFrom_eq hrounds, h.resolve_eq, if_neg hnew]
    exact ih rounds hrounds left (by omega)
  | @other id target shape pending seen h hnew hobject honeOf =>
    refine ⟨1, ?_⟩
    intro rounds hrounds left hleft
    obtain ⟨left, rfl⟩ := Nat.exists_eq_add_of_le' hleft
    simp only [sift, chaseFrom_eq hrounds, h.resolve_eq, if_neg hnew]

/-- What holds of finitely many numbers from some number of rounds on holds of all of them from
some number of rounds on. -/
theorem exists_least {P : Nat → Nat → Prop} (bound : Nat)
    (h : ∀ i < bound, ∃ least, ∀ rounds, least ≤ rounds → P i rounds) :
    ∃ least, ∀ rounds, least ≤ rounds → ∀ i < bound, P i rounds := by
  induction bound with
  | zero => exact ⟨0, fun _ _ i hi ↦ absurd hi (Nat.not_lt_zero i)⟩
  | succ bound ih =>
    obtain ⟨least, hleast⟩ := ih fun i hi ↦ h i (Nat.lt_succ_of_lt hi)
    obtain ⟨last, hlast⟩ := h bound (Nat.lt_succ_self _)
    refine ⟨max least last, ?_⟩
    intro rounds hrounds i hi
    rcases Nat.lt_succ_iff_lt_or_eq.1 hi with hi | rfl
    · exact hleast rounds (le_trans (le_max_left _ _) hrounds) i hi
    · exact hlast rounds (le_trans (le_max_right _ _) hrounds)

/-- From some number of rounds on, sifting tests every flatten target of every node. -/
theorem exists_sift (g : Graph) : ∃ least, ∀ rounds, least ≤ rounds → ∀ owner target : NodeId,
    owner.index < g.size → g.sift rounds owner rounds [target] [] =
      some (g.testFlatten owner target) := by
  have hpair (owner : Nat) (target : Nat) : ∃ least, ∀ rounds, least ≤ rounds →
      g.sift rounds ⟨owner⟩ rounds [⟨target⟩] [] = some (g.testFlatten ⟨owner⟩ ⟨target⟩) := by
    have hrun : g.FlattenTest ⟨owner⟩ [⟨target⟩] [] (g.testFlatten ⟨owner⟩ ⟨target⟩) :=
      flattenTest_testFlatten ⟨target⟩
    obtain ⟨least, hleast⟩ := hrun.exists_sift
    exact ⟨max (g.size + 1) least, fun rounds hrounds ↦
      hleast rounds (le_trans (le_max_left _ _) hrounds) rounds
        (le_trans (le_max_right _ _) hrounds)⟩
  obtain ⟨least, hleast⟩ := exists_least g.size fun owner _ ↦
    exists_least g.size fun target _ ↦ hpair owner target
  refine ⟨max (g.size + 1) least, ?_⟩
  intro rounds hrounds owner target howner
  have hsize : g.size < rounds := le_trans (le_max_left _ _) hrounds
  by_cases htarget : target.index < g.size
  · exact hleast rounds (le_trans (le_max_right _ _) hrounds) owner.index howner target.index
      htarget
  · -- an id without a slot is refused in the first round
    have hget : g.get target = .error ⟨target, .unknownPattern⟩ := by
      simp [get, Array.getElem?_eq_none (Nat.le_of_not_lt htarget)]
    have hresolve : g.resolve target = .error ⟨target, .unknownPattern⟩ :=
      (ChainEnds.fault hget).resolve_eq
    have htest : g.testFlatten owner target = .error ⟨target, .unknownPattern⟩ := by
      simp [testFlatten, testTargets, testPending, hresolve]
    obtain ⟨left, rfl⟩ : ∃ left, rounds = left + 1 := ⟨rounds - 1, by omega⟩
    simp [sift, chaseFrom_eq hsize, hresolve, htest]

end Graph

/-! ### Sweeping for cycles -/

section Sweep

variable {α : Type} [DecidableEq α] {successors : α → List α}

theorem Sweep.exists_sweep {stack : List (α × List α)} {done : List α}
    {result : Except α (List α)} (h : Sweep successors stack done result) :
    ∃ least, ∀ left, least ≤ left → sweep successors left stack done = some result := by
  induction h with
  | finished done => exact ⟨0, fun left _ ↦ by cases left <;> rfl⟩
  | close rest ih =>
    obtain ⟨least, ih⟩ := ih
    refine ⟨least + 1, ?_⟩
    intro left hleft
    obtain ⟨left, rfl⟩ := Nat.exists_eq_add_of_le' (Nat.le_of_add_left_le hleft)
    exact ih left (by omega)
  | cycle hopen =>
    refine ⟨1, ?_⟩
    intro left hleft
    obtain ⟨left, rfl⟩ := Nat.exists_eq_add_of_le' hleft
    simp only [sweep, if_pos hopen]
  | known hopen hdone rest ih =>
    obtain ⟨least, ih⟩ := ih
    refine ⟨least + 1, ?_⟩
    intro left hleft
    obtain ⟨left, rfl⟩ := Nat.exists_eq_add_of_le' (Nat.le_of_add_left_le hleft)
    simp only [sweep, if_neg hopen, if_pos hdone]
    exact ih left (by omega)
  | push hopen hdone rest ih =>
    obtain ⟨least, ih⟩ := ih
    refine ⟨least + 1, ?_⟩
    intro left hleft
    obtain ⟨left, rfl⟩ := Nat.exists_eq_add_of_le' (Nat.le_of_add_left_le hleft)
    simp only [sweep, if_neg hopen, if_neg hdone]
    exact ih left (by omega)

theorem SweepAll.exists_sweepAll {starts done : List α} {result : Except α (List α)}
    (h : SweepAll successors starts done result) :
    ∃ least, ∀ rounds, least ≤ rounds → sweepAll successors rounds starts done = some result := by
  induction h with
  | finished done => exact ⟨0, fun _ _ ↦ rfl⟩
  | skip hdone rest ih =>
    obtain ⟨least, ih⟩ := ih
    refine ⟨least, ?_⟩
    intro rounds hrounds
    simpa only [sweepAll, if_pos hdone] using ih rounds hrounds
  | cycle hdone hsweep =>
    obtain ⟨least, hleast⟩ := hsweep.exists_sweep
    exact ⟨least, fun rounds hrounds ↦ by
      simp only [sweepAll, if_neg hdone, hleast rounds hrounds]⟩
  | search hdone hsweep rest ih =>
    obtain ⟨least, hleast⟩ := hsweep.exists_sweep
    obtain ⟨least', ih⟩ := ih
    refine ⟨max least least', ?_⟩
    intro rounds hrounds
    simp only [sweepAll, if_neg hdone, hleast rounds (le_trans (le_max_left _ _) hrounds)]
    exact ih rounds (le_trans (le_max_right _ _) hrounds)

end Sweep

end JsonPattern
