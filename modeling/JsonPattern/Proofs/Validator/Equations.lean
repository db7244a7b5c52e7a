import JsonPattern.Proofs.Validator.Verdict

/-!
# Equations of ranked tables

On the references on which a table is ranked, what it does is given by equations that mention
neither hops nor levels.
-/

namespace JsonPattern

namespace Table

variable {ρ : Type} [DecidableEq ρ] {T : Table ρ} {nodes : Set ρ} {rank : ρ → Nat}

theorem closeObject_eq_nil_iff {path : Path} {outcome : Outcome} :
    closeObject path outcome = [] ↔ outcome.failures = [] ∧ outcome.rest = [] := by
  rw [closeObject]
  cases outcome.rest <;> simp

/-- Flattened on its own, a check takes members as it does by itself. -/
theorem takeView_flatten {deeper : PartCheck ρ} {path : Path} {target : ρ} {members : Members} :
    T.takeView deeper path (.group [.flatten target]) members =
      T.takeView deeper path (.ref target) members := by
  simp only [takeView, takeGroup, takeClause, Outcome.andThen, Outcome.keep, List.append_nil]

/-- On its own, an alternation dispatches between its groups. -/
theorem takeView_oneOf {deeper : PartCheck ρ} {path : Path} {groups : List (List (Clause ρ))}
    {members : Members} :
    T.takeView deeper path (.group [.oneOf groups]) members = T.dispatch path
      (groups.map fun group ↦ ⟨.group group, T.takeView deeper path (.group group)⟩) members := by
  simp only [takeView, takeGroup, takeClause, takeEither_eq_map, Outcome.andThen, Outcome.keep,
    List.append_nil]

namespace Ranked

variable (h : T.Ranked nodes rank) {r : ρ} (hr : r ∈ nodes)

include h hr

/-! ### Looks -/

theorem labels_eq : T.labels r = match T.check r with
    | .kind type => .singleton type.label
    | .literal value => .singleton value.text
    | .regex _ label => .singleton label
    | .arrayOf _ => .singleton "array"
    | .object _ => .singleton "object"
    | .oneOf alternatives => T.labelsOf alternatives
    | .anything => .singleton "anything" :=
  h.covers_self.labelsWithin_eq hr (Nat.lt_succ_of_lt (h.lt_hops r hr)) (h.lt_hops r hr)

theorem fits_eq {value : Json} : T.fits r value = match T.check r with
    | .kind type => type.accepts value.kind
    | .literal literal => literal.equal value
    | .regex r _ =>
      match value with
      | .string s => r.isMatch s
      | _ => false
    | .arrayOf _ => value.isArray
    | .object _ => value.isObject
    | .oneOf alternatives => (T.branches alternatives value).length == 1
    | .anything => true :=
  h.covers_self.fitsWithin_eq hr (Nat.lt_succ_of_lt (h.lt_hops r hr)) (h.lt_hops r hr)

/-! ### Openings -/

theorem firstNames_ref_eq : T.firstNames (.ref r) = match T.check r with
    | .object clauses => T.firstNames (.group clauses)
    | .oneOf alternatives => .unions (alternatives.map fun a ↦ T.firstNames (.ref a))
    | _ => ∅ :=
  h.covers_self.firstNamesWithin_eq hr (Nat.lt_succ_of_lt (h.lt_hops r hr)) (h.lt_hops r hr)

theorem firstChecks_ref_eq {name : String} :
    T.firstChecks name (.ref r) = match T.check r with
      | .object clauses => T.firstChecks name (.group clauses)
      | .oneOf alternatives => alternatives.flatMap fun a ↦ T.firstChecks name (.ref a)
      | _ => [] := by
  have hstep : T.firstChecksWithin name T.hops r =
      (T.firstChecksWithin name (T.hops + 1) r).map id := h.covers_self.firstChecksWithin_eq hr
    (Nat.lt_succ_of_lt (h.lt_hops r hr)) (h.lt_hops r hr)
  rw [List.map_id] at hstep
  exact hstep

theorem opens_ref_eq {name : String} {value : Json} :
    T.opens name value (.ref r) = match T.check r with
      | .object clauses => T.opens name value (.group clauses)
      | .oneOf alternatives => alternatives.countP (fun a ↦ T.opens name value (.ref a)) == 1
      | _ => false :=
  h.covers_self.opensWithin_eq hr (Nat.lt_succ_of_lt (h.lt_hops r hr)) (h.lt_hops r hr)

/-- An object is opened by what opens its clauses. -/
theorem sameOpenings_object {clauses : List (Clause ρ)} (hcheck : T.check r = .object clauses) :
    T.SameOpenings (.ref r) T (.group clauses) where
  firstNames_eq := by rw [h.firstNames_ref_eq hr, hcheck]
  firstChecks_eq name := by rw [h.firstChecks_ref_eq hr, hcheck]
  opens_eq name value := by rw [h.opens_ref_eq hr, hcheck]

/-! ### Verdicts -/

/-- At the value itself the levels that are left do not matter, either. -/
theorem failuresHere_eq {path : Path} {value : Json} {hops : Nat} (hhops : rank r < hops) :
    T.failuresHere T.failures hops r path value = T.failures r path value := by
  have hdeeper : ∀ s ∈ nodes, ∀ path part, part.depth < value.depth →
      T.failures (id s) path part = T.failuresWithin value.depth s path part :=
    fun s hs path part hpart ↦
      h.covers_self.failuresWithin_eq hs hpart (Nat.lt_succ_self part.depth)
  exact h.covers_self.failuresHere_eq hdeeper hr (h.lt_hops r hr) hhops

theorem takeView_ref_eq {deeper : PartCheck ρ} {path : Path} {members : Members} :
    T.takeView deeper path (.ref r) members = match T.check r with
      | .object clauses => T.takeView deeper path (.group clauses) members
      | .oneOf alternatives => T.dispatch path
          (alternatives.map fun a ↦ ⟨.ref a, T.takeView deeper path (.ref a)⟩) members
      | _ => .keep members :=
  h.covers_self.takeTargetWithin_eq (P := fun _ ↦ True) (fun _ _ _ _ _ ↦ rfl) hr
    (Nat.lt_succ_of_lt (h.lt_hops r hr)) (h.lt_hops r hr) members fun _ _ ↦ trivial

theorem failures_eq {path : Path} {value : Json} :
    T.failures r path value = match T.check r with
      | .kind type =>
        if type.accepts value.kind then [] else [.unexpected path value.kind.label type.label]
      | .literal literal => if literal.equal value then [] else [literalFailure path literal value]
      | .regex r label =>
        match value with
        | .string s => if r.isMatch s then [] else [.unexpected path value.text label]
        | _ => [.unexpected path value.kind.label "string"]
      | .arrayOf element =>
        match value with
        | .array items =>
          items.zipIdx.flatMap fun (item, i) ↦ T.failures element (path.item i) item
        | _ => [.unexpected path value.kind.label "array"]
      | .object clauses =>
        match value with
        | .object members => closeObject path (T.takeView T.failures path (.group clauses) members)
        | _ => [.unexpected path value.kind.label "object"]
      | .oneOf alternatives =>
        match T.branches alternatives value, value with
        | [], _ => [.unexpectedOf path value.shallowText (T.labelsOf alternatives)]
        | [.single only], _ => T.failures only path value
        | [.objects objects], .object members =>
          closeObject path (T.dispatch path
            (objects.map fun o ↦ ⟨.ref o, T.takeView T.failures path (.ref o)⟩) members)
        | [.objects _], _ => []
        | branches, _ =>
          [.ambiguous path value.shallowText (.unions (branches.map T.branchLabels))]
      | .anything => [] := by
  rw [← h.failuresHere_eq hr (Nat.lt_succ_of_lt (h.lt_hops r hr)), failuresHere]
  cases hcheck : T.check r with
  | oneOf alternatives =>
    have hmem (only : ρ) (honly : .single only ∈ T.branches alternatives value) : only ∈ nodes :=
      (h.mem_branches hr hcheck honly List.mem_cons_self).1
    rcases hbranches : T.branches alternatives value with _ | ⟨first, _ | ⟨second, rest⟩⟩
    · simp only [hbranches]
    · simp only [hbranches]
      cases first with
      | single only =>
        have honly := hmem only (hbranches ▸ List.mem_cons_self)
        exact h.failuresHere_eq honly (h.lt_hops only honly)
      | objects objects => cases value <;> rfl
    · simp only [hbranches]
  | kind | literal | regex | arrayOf | object | anything => rfl

end Ranked

end Table

/-! ### Checks of a validator -/

namespace Validator

variable {V : Validator} {slot : Nat}

theorem check_eq_of_getElem? {check : Check Nat} (h : V.checks[slot]? = some check) :
    V.table.check slot = check :=
  (Array.getD_eq_getD_getElem? ..).trans (by rw [h, Option.getD_some])

/-- Behind a slot beyond the end nothing is tested. -/
theorem check_eq_anything_of_le (h : V.size ≤ slot) : V.table.check slot = .anything :=
  (Array.getD_eq_getD_getElem? ..).trans (by rw [Array.getElem?_eq_none h, Option.getD_none])

theorem check_mem_of_lt (h : slot < V.size) : V.table.check slot ∈ V.checks := by
  rw [check_eq_of_getElem? (Array.getElem?_eq_getElem h)]
  exact Array.getElem_mem h

end Validator

end JsonPattern
