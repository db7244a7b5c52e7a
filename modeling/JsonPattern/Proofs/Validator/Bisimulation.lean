import JsonPattern.Proofs.Pattern.Pairs
import JsonPattern.Proofs.Validator.Covering

/-!
# Bisimilar tables

Two tables of checks are bisimilar along a relation if related references have checks that differ
in their references only, which are related again. The related pairs then form a table of their
own, which is projected onto either side, and a value looks the same from a pair as from its two
sides.

There is one place where a validator tells references apart: a leaf that is met twice below a
disjunction is opened once. So the projections are coverings only where the leaves below related
disjunctions repeat each other at the same positions.
-/

namespace JsonPattern

variable {ρ σ : Type}

/-! ### Repetitions -/

/-- Two lists, equally long, repeat an item at the same pairs of positions. The positions past the
end count as repetitions of each other, so the end of one list is the end of the other. -/
def SameRepeats (xs : List ρ) (ys : List σ) : Prop :=
  ∀ i j : Nat, xs[i]? = xs[j]? ↔ ys[i]? = ys[j]?

theorem SameRepeats.symm {xs : List ρ} {ys : List σ} (h : SameRepeats xs ys) : SameRepeats ys xs :=
  fun i j ↦ (h i j).symm

/-- Items that two functions tell apart together, either of them tells apart, if their values repeat
alike. -/
theorem SameRepeats.injOn {τ : Type} {items : List τ} {f : τ → ρ} {f' : τ → σ}
    (h : SameRepeats (items.map f) (items.map f'))
    (hboth : ∀ a b, f a = f b → f' a = f' b → a = b) : Set.InjOn f {a | a ∈ items} := by
  intro a ha b hb heq
  obtain ⟨i, hi⟩ := List.mem_iff_getElem?.1 ha
  obtain ⟨j, hj⟩ := List.mem_iff_getElem?.1 hb
  have hrepeats := (h i j).1 (by simp [hi, hj, heq])
  exact hboth a b heq (by simpa [hi, hj] using hrepeats)

/-- Equally many items without repetition repeat alike. -/
theorem SameRepeats.of_nodup {xs : List ρ} {ys : List σ} (hxs : xs.Nodup) (hys : ys.Nodup)
    (hlength : xs.length = ys.length) : SameRepeats xs ys := by
  have hiff {τ : Type} {zs : List τ} (hzs : zs.Nodup) (i j : Nat) :
      zs[i]? = zs[j]? ↔ i = j ∨ zs.length ≤ i ∧ zs.length ≤ j := by
    constructor
    · intro heq
      by_cases hi : i < zs.length
      · exact .inl ((List.getElem?_inj hi hzs).1 heq)
      · rw [List.getElem?_eq_none (Nat.le_of_not_lt hi)] at heq
        exact .inr ⟨Nat.le_of_not_lt hi, List.getElem?_eq_none_iff.1 heq.symm⟩
    · rintro (rfl | ⟨hi, hj⟩)
      · rfl
      · rw [List.getElem?_eq_none hi, List.getElem?_eq_none hj]
  intro i j
  rw [hiff hxs, hiff hys, hlength]

/-! ### Related checks -/

/-- Two checks are the sides of a check of related pairs. -/
def Check.Relates (R : ρ → σ → Prop) (check : Check ρ) (other : Check σ) : Prop :=
  ∃ pairs : Check (ρ × σ), pairs.map Prod.fst = check ∧ pairs.map Prod.snd = other ∧
    ∀ p ∈ pairs.refs, R p.1 p.2

/-- Bodies that are related have related checks. -/
theorem Shape.Relates.check (E : Engine) {R : ρ → σ → Prop} {shape : Shape ρ} {other : Shape σ}
    (h : shape.Relates R other) :
    ((shape.check? E).getD .anything).Relates R ((other.check? E).getD .anything) := by
  obtain ⟨pairs, rfl, rfl, hpairs⟩ := h
  refine ⟨(pairs.check? E).getD .anything, (pairs.check?_getD_map E _).symm,
    (pairs.check?_getD_map E _).symm, fun p hp ↦ hpairs p ?_⟩
  cases pairs with
  | regex source =>
    cases hread : E.read source <;> simp [Shape.check?, hread, Except.toOption, Check.refs] at hp
  | type name => cases name <;> simp [Shape.check?, TypeName.check, Check.refs] at hp
  | literal | arrayOf | object | oneOf | anything => exact hp

theorem Check.Relates.map {ρ' σ' : Type} {R : ρ → σ → Prop} {S : ρ' → σ' → Prop} {check : Check ρ}
    {other : Check σ} (h : check.Relates R other) {f : ρ → ρ'} {f' : σ → σ'}
    (hf : ∀ a b, R a b → S (f a) (f' b)) : (check.map f).Relates S (other.map f') := by
  obtain ⟨pairs, rfl, rfl, hpairs⟩ := h
  refine ⟨pairs.map (Prod.map f f'), ?_, ?_, ?_⟩
  · rw [map_map, map_map]; rfl
  · rw [map_map, map_map]; rfl
  · rw [refs_map]
    exact List.forall_mem_map.2 fun p hp ↦ hf _ _ (hpairs p hp)

namespace Table

variable {T : Table ρ} {U : Table σ} {nodes : Set ρ} {nodes' : Set σ} {rank : ρ → Nat}
  {rank' : σ → Nat}

/-- A rank of one table is a rank of another one that a function carries to it. -/
theorem Ranked.comp {f : ρ → σ} (h : U.Ranked nodes' rank')
    (hcheck : ∀ r ∈ nodes, U.check (f r) = (T.check r).map f) (hnodes : Set.MapsTo f nodes nodes')
    (hclosed : ∀ r ∈ nodes, ∀ next ∈ (T.check r).refs, next ∈ nodes) (hhops : U.hops ≤ T.hops) :
    T.Ranked nodes (rank' ∘ f) where
  closed := hclosed
  lt_hops r hr := (h.lt_hops (f r) (hnodes hr)).trans_le hhops
  descends r hr next hnext := h.descends (f r) (hnodes hr) (f next) (by
    rw [hcheck r hr, Check.unguardedRefs_map]
    exact List.mem_map_of_mem hnext)

/-! ### Bisimulations -/

/-- Related references have the same check, up to references that are related. -/
structure Bisimulation (T : Table ρ) (U : Table σ) (R : ρ → σ → Prop) : Prop where
  /-- The checks differ in related references only. -/
  check : ∀ r s, R r s → (T.check r).Relates R (U.check s)
  /-- The leaves below disjunctions repeat each other at the same positions. -/
  repeats : ∀ r s, R r s → ∀ alternatives others, T.check r = .oneOf alternatives →
    U.check s = .oneOf others → SameRepeats (T.leaves alternatives) (U.leaves others)

namespace Bisimulation

variable {R : ρ → σ → Prop}

/-- The related pairs form a table with either side as a projection. -/
theorem exists_pairs (h : T.Bisimulation U R) :
    ∃ P : Table (ρ × σ), P.hops = max T.hops U.hops ∧ ∀ p, R p.1 p.2 →
      T.check p.1 = (P.check p).map Prod.fst ∧ U.check p.2 = (P.check p).map Prod.snd ∧
        ∀ q ∈ (P.check p).refs, R q.1 q.2 := by
  classical
  have hpairs (p : ρ × σ) : ∃ check : Check (ρ × σ), R p.1 p.2 →
      T.check p.1 = check.map Prod.fst ∧ U.check p.2 = check.map Prod.snd ∧
        ∀ q ∈ check.refs, R q.1 q.2 := by
    by_cases hp : R p.1 p.2
    · obtain ⟨check, hfst, hsnd, hrefs⟩ := h.check p.1 p.2 hp
      exact ⟨check, fun _ ↦ ⟨hfst.symm, hsnd.symm, hrefs⟩⟩
    · exact ⟨.anything, fun hR ↦ absurd hR hp⟩
  choose check hcheck using hpairs
  exact ⟨⟨check, max T.hops U.hops⟩, rfl, hcheck⟩

variable [DecidableEq ρ] [DecidableEq σ]

/-- A table covers two ranked tables that are bisimilar, with related references under the same
pair. -/
theorem exists_covers (h : T.Bisimulation U R) (hT : T.Ranked nodes rank)
    (hU : U.Ranked nodes' rank') (hR : ∀ r s, R r s → r ∈ nodes ∧ s ∈ nodes') :
    ∃ P : Table (ρ × σ), P.Covers T Prod.fst {p | R p.1 p.2} (rank ∘ Prod.fst) ∧
      P.Covers U Prod.snd {p | R p.1 p.2} (rank' ∘ Prod.snd) := by
  obtain ⟨P, hhops, hP⟩ := h.exists_pairs
  have hclosed : ∀ p ∈ {p : ρ × σ | R p.1 p.2}, ∀ q ∈ (P.check p).refs, R q.1 q.2 :=
    fun p hp ↦ (hP p hp).2.2
  have hcheck : ∀ p ∈ {p : ρ × σ | R p.1 p.2}, T.check p.1 = (P.check p).map Prod.fst :=
    fun p hp ↦ (hP p hp).1
  have hcheck' : ∀ p ∈ {p : ρ × σ | R p.1 p.2}, U.check p.2 = (P.check p).map Prod.snd :=
    fun p hp ↦ (hP p hp).2.1
  have hranked : P.Ranked {p | R p.1 p.2} (rank ∘ Prod.fst) :=
    hT.comp hcheck (fun p hp ↦ (hR p.1 p.2 hp).1) hclosed (by omega)
  have hranked' : P.Ranked {p | R p.1 p.2} (rank' ∘ Prod.snd) :=
    hU.comp hcheck' (fun p hp ↦ (hR p.1 p.2 hp).2) hclosed (by omega)
  have hlt : ∀ p ∈ {p : ρ × σ | R p.1 p.2}, rank p.1 < T.hops :=
    fun p hp ↦ hT.lt_hops p.1 (hR p.1 p.2 hp).1
  have hlt' : ∀ p ∈ {p : ρ × σ | R p.1 p.2}, rank' p.2 < U.hops :=
    fun p hp ↦ hU.lt_hops p.2 (hR p.1 p.2 hp).2
  -- The leaves below a pair are pairs of leaves, so its sides repeat as the two tables do.
  have hrepeats : ∀ p ∈ {p : ρ × σ | R p.1 p.2}, ∀ alternatives,
      P.check p = .oneOf alternatives →
        SameRepeats ((P.leaves alternatives).map Prod.fst)
          ((P.leaves alternatives).map Prod.snd) := by
    intro p hp alternatives hP'
    have halternatives : ∀ q ∈ alternatives, R q.1 q.2 := by
      have hrefs := hclosed p hp
      rwa [hP'] at hrefs
    rw [← hranked.leaves_map hcheck hlt halternatives,
      ← hranked'.leaves_map hcheck' hlt' halternatives]
    refine h.repeats p.1 p.2 hp _ _ ?_ ?_
    · rw [hcheck p hp, hP']
      rfl
    · rw [hcheck' p hp, hP']
      rfl
  exact ⟨P,
    .of_injOn_leaves hranked hcheck hlt fun p hp _ hP' ↦
      (hrepeats p hp _ hP').injOn fun _ _ ↦ Prod.ext,
    .of_injOn_leaves hranked' hcheck' hlt' fun p hp _ hP' ↦
      (hrepeats p hp _ hP').symm.injOn fun _ _ hsnd hfst ↦ Prod.ext hfst hsnd⟩

end Bisimulation

end Table

end JsonPattern
