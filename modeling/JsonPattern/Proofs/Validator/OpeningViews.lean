import JsonPattern.Proofs.Validator.Consumption
import JsonPattern.Proofs.Validator.Expectation
import JsonPattern.Proofs.Validator.Reordering

/-!
# Views of what opens a part

What opens a part is seen in three ways, each by a recursion of its own: the names, the checks that
may apply to the value under a name, and whether a value under a name fits. The last one counts
where there are alternatives, since more than one that fits is none. Still the views agree: a name
may open a part if and only if a check may apply to its value, what fits is fit by one of the
checks, and where there is a single check, it alone decides.
-/

namespace JsonPattern

variable {ρ : Type} {fits : ρ → Bool} {name : String}

/-- Whether a value opens something accords with the checks that may apply to it. -/
structure Accords (fits : ρ → Bool) (checks : List ρ) (opened : Bool) : Prop where
  /-- What opens it fits one of the checks. -/
  exists_fits : opened = true → ∃ r ∈ checks, fits r = true
  /-- A single check decides. -/
  eq_fits : ∀ r, checks = [r] → opened = fits r

namespace Accords

theorem nil : Accords fits [] false := ⟨nofun, nofun⟩

theorem singleton (r : ρ) : Accords fits [r] (fits r) :=
  ⟨fun h ↦ ⟨r, List.mem_singleton.2 rfl, h⟩, fun _ he ↦ congrArg fits (List.cons.inj he).1⟩

theorem eq_false {opened : Bool} (h : Accords fits [] opened) : opened = false := by
  by_contra hopened
  obtain ⟨r, hr, -⟩ := h.exists_fits (Bool.eq_true_of_not_eq_false hopened)
  exact List.not_mem_nil hr

theorem append {checks checks' : List ρ} {opened opened' : Bool} (h : Accords fits checks opened)
    (h' : Accords fits checks' opened') : Accords fits (checks ++ checks') (opened || opened') := by
  constructor
  · intro hopened
    rcases Bool.or_eq_true_iff.1 hopened with hopened | hopened
    · obtain ⟨r, hr, hfits⟩ := h.exists_fits hopened
      exact ⟨r, List.mem_append_left _ hr, hfits⟩
    · obtain ⟨r, hr, hfits⟩ := h'.exists_fits hopened
      exact ⟨r, List.mem_append_right _ hr, hfits⟩
  · intro r he
    rcases List.append_eq_singleton_iff.1 he with ⟨rfl, hsingle⟩ | ⟨hsingle, rfl⟩
    · rw [h.eq_false, Bool.false_or, h'.eq_fits r hsingle]
    · rw [h'.eq_false, Bool.or_false, h.eq_fits r hsingle]

/-- Alternatives, of which exactly one has to be opened. -/
theorem oneOf {α : Type} {checks : α → List ρ} {opened : α → Bool} {as : List α}
    (h : ∀ a ∈ as, Accords fits (checks a) (opened a)) :
    Accords fits (as.flatMap checks) (as.countP opened == 1) := by
  constructor
  · intro hopened
    obtain ⟨a, ha, hopened⟩ := List.countP_pos_iff.1 (eq_of_beq hopened ▸ Nat.one_pos)
    obtain ⟨r, hr, hfits⟩ := (h a ha).exists_fits hopened
    exact ⟨r, List.mem_flatMap.2 ⟨a, ha, hr⟩, hfits⟩
  · intro r he
    -- The alternatives without a check are not opened, so they do not count.
    have hcount : as.countP opened = if fits r then 1 else 0 := by
      induction as with
      | nil => cases he
      | cons a as ih =>
        have hfirst := h a List.mem_cons_self
        have hrest (b : α) (hb : b ∈ as) := h b (List.mem_cons_of_mem a hb)
        rw [List.flatMap_cons] at he
        rw [List.countP_cons]
        rcases List.append_eq_singleton_iff.1 he with ⟨hnil, hsingle⟩ | ⟨hsingle, hnil⟩
        · rw [hnil] at hfirst
          rw [ih hrest hsingle, hfirst.eq_false]
          rfl
        · have hzero : as.countP opened = 0 := List.countP_eq_zero.2 fun b hb ↦ by
            have hb' := hrest b hb
            rw [List.flatMap_eq_nil_iff.1 hnil b hb] at hb'
            rw [hb'.eq_false]
            exact Bool.false_ne_true
          rw [hzero, hfirst.eq_fits r hsingle, Nat.zero_add]
    rw [hcount]
    cases fits r <;> rfl

end Accords

/-! ### Lists of clauses -/

section Clauses

variable {ofChecks : ρ → List ρ} {ofTarget : ρ → Bool}

mutual

theorem Clause.accords (htarget : ∀ t, Accords fits (ofChecks t) (ofTarget t)) :
    (clause : Clause ρ) →
      Accords fits (clause.firstChecks ofChecks name) (clause.opens fits ofTarget name)
  | .named own value => by
    rw [Clause.firstChecks, Clause.opens]
    cases own == name with
    | true => exact .singleton value
    | false => exact .nil
  | .optional group => groupAccords htarget group
  | .many _ => .nil
  | .flatten t => htarget t
  | .oneOf groups => by
    rw [Clause.firstChecks, Clause.opens, groupsFirstChecks_eq_flatMap, groupsOpened_eq_countP]
    exact .oneOf (groupsAccord htarget groups)

theorem groupAccords (htarget : ∀ t, Accords fits (ofChecks t) (ofTarget t)) :
    (group : List (Clause ρ)) →
      Accords fits (groupFirstChecks ofChecks name group) (groupOpens fits ofTarget name group)
  | [] => .nil
  | clause :: group => by
    have hclause := clause.accords htarget
    have hgroup := groupAccords htarget group
    rw [groupFirstChecks, groupOpens]
    cases clause.isOptional with
    | true => exact hclause.append hgroup
    | false => simpa using hclause

theorem groupsAccord (htarget : ∀ t, Accords fits (ofChecks t) (ofTarget t)) :
    (groups : List (List (Clause ρ))) → ∀ group ∈ groups,
      Accords fits (groupFirstChecks ofChecks name group) (groupOpens fits ofTarget name group)
  | [], _, h => absurd h List.not_mem_nil
  | first :: groups, group, h => by
    have hfirst := groupAccords htarget first
    rcases List.mem_cons.1 h with rfl | h
    · exact hfirst
    · exact groupsAccord htarget groups group h

end

end Clauses

/-! ### Parts -/

namespace Table

variable [DecidableEq ρ] {T : Table ρ} {value : Json}

theorem accordsWithin (hops : Nat) (r : ρ) :
    Accords (T.fits · value) (T.firstChecksWithin name hops r)
      (T.opensWithin name value hops r) := by
  induction hops generalizing r with
  | zero => exact .nil
  | succ hops ih =>
    rw [firstChecksWithin, opensWithin]
    cases T.check r with
    | object clauses => exact groupAccords ih clauses
    | oneOf alternatives => exact .oneOf fun a _ ↦ ih a
    | kind | literal | regex | arrayOf | anything => exact .nil

/-- Whether a value opens a part accords with the checks that may apply to it. -/
theorem accords (part : Part ρ) :
    Accords (T.fits · value) (T.partFirstChecks name part) (T.partOpens name value part) := by
  rcases part with clause | clauses | target
  · exact clause.accords (T.accordsWithin T.hops)
  · exact groupAccords (T.accordsWithin T.hops) clauses
  · exact T.accordsWithin T.hops target

omit [DecidableEq ρ] in
/-- A name may open a part if and only if a check may apply to its value. -/
theorem mem_partFirstNames_iff (part : Part ρ) :
    name ∈ T.partFirstNames part ↔ T.partFirstChecks name part ≠ [] := by
  constructor
  · intro h
    rcases part with clause | view
    · exact clause.firstChecks_ne_nil (fun _ ↦ firstChecksWithin_ne_nil) h
    · exact firstChecks_ne_nil h
  · intro h
    obtain ⟨r, hr⟩ := List.exists_mem_of_ne_nil _ h
    rcases part with clause | view
    · exact clause.mem_firstNames_of_mem_firstChecks
        (fun _ _ ↦ mem_firstNamesWithin_of_mem_firstChecks) r hr
    · exact mem_firstNames_of_mem_firstChecks hr

end Table

end JsonPattern
