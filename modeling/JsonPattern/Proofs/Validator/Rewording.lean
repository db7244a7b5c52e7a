import JsonPattern.Proofs.Validator.Interchange

/-!
# Reworded objects

A table rewords another one if it has the same checks, but gives some objects other clauses, which
can stand for those of the first table. A shallow look does not see the clauses of an object, so it
finds no difference. What opens an object matters only where it is asked for, and only there the
clauses need be opened by the same members. Both tables then have the same verdicts.

## Main definitions

* `Table.LooksLike` : the same checks, but for the clauses of objects.
* `Table.Opened` : it is asked what opens a check.
* `Table.Reworded` : clauses that take members in the same way, and are opened alike where it is
  asked for.

## Main results

* `Table.LooksLike.fits_eq`, `Table.LooksLike.labels_eq` : shallow looks do not see the clauses.
* `Table.Reworded.takeView_eq` : members are taken in the same way.
* `Table.Reworded.failures_eq` : a table that rewords another one has the same verdicts.
-/

namespace JsonPattern

namespace Table

variable {ρ : Type} [DecidableEq ρ] {T U : Table ρ} {nodes : Set ρ} {rank : ρ → Nat}

/-! ### Shallow looks -/

/-- Two tables have the same checks, except that objects may have other clauses. -/
structure LooksLike (T U : Table ρ) : Prop where
  /-- Both follow as many references in a row. -/
  hops_eq : U.hops = T.hops
  /-- Only objects differ, and only in their clauses. -/
  check_cases : ∀ r, U.check r = T.check r ∨
    ∃ clauses clauses', T.check r = .object clauses ∧ U.check r = .object clauses'

namespace LooksLike

variable (h : T.LooksLike U)

include h

omit [DecidableEq ρ] in
theorem check_eq_of_isObject {r : ρ} {check : Check ρ} (hcheck : T.check r = check)
    (hobject : check.isObject = false) : U.check r = check := by
  rcases h.check_cases r with heq | ⟨clauses, clauses', hcheck', -⟩
  · exact heq.trans hcheck
  · rw [← hcheck, hcheck'] at hobject
    cases hobject

omit [DecidableEq ρ] in
theorem check_eq_of_isObject' {r : ρ} {check : Check ρ} (hcheck : U.check r = check)
    (hobject : check.isObject = false) : T.check r = check := by
  rcases h.check_cases r with heq | ⟨clauses, clauses', -, hcheck'⟩
  · exact heq.symm.trans hcheck
  · rw [← hcheck, hcheck'] at hobject
    cases hobject

omit [DecidableEq ρ] in
theorem exists_object {r : ρ} {clauses : List (Clause ρ)} (hcheck : T.check r = .object clauses) :
    ∃ clauses', U.check r = .object clauses' := by
  rcases h.check_cases r with heq | ⟨_, clauses', -, hcheck'⟩
  · exact ⟨clauses, heq.trans hcheck⟩
  · exact ⟨clauses', hcheck'⟩

omit [DecidableEq ρ] in
theorem isObject_eq : U.isObject = T.isObject := by
  funext r
  rw [isObject, isObject]
  rcases h.check_cases r with heq | ⟨clauses, clauses', hcheck, hcheck'⟩
  · rw [heq]
  · rw [hcheck, hcheck', Check.isObject, Check.isObject]

omit [DecidableEq ρ] in
theorem labelsWithin_eq (hops : Nat) : U.labelsWithin hops = T.labelsWithin hops := by
  induction hops with
  | zero => rfl
  | succ hops ih =>
    funext r
    rw [labelsWithin, labelsWithin, ih]
    rcases h.check_cases r with heq | ⟨clauses, clauses', hcheck, hcheck'⟩
    · rw [heq]
    · rw [hcheck, hcheck']

theorem spliceInto_eq (hops : Nat) : U.spliceInto hops = T.spliceInto hops := by
  induction hops with
  | zero => rfl
  | succ hops ih =>
    funext done r
    rw [spliceInto, spliceInto, ih]
    rcases h.check_cases r with heq | ⟨clauses, clauses', hcheck, hcheck'⟩
    · rw [heq]
    · rw [hcheck, hcheck']

theorem branchesBy_eq : U.branchesBy = T.branchesBy := by
  funext fits alternatives value
  have hsplice : U.splice alternatives = T.splice alternatives := by
    rw [splice, splice, h.hops_eq, h.spliceInto_eq]
  have hgroup (leaves : List ρ) : U.groupBranches fits leaves = T.groupBranches fits leaves := by
    rw [groupBranches, groupBranches, h.isObject_eq]
  rw [branchesBy, branchesBy, hsplice, hgroup]

theorem fitsWithin_eq (hops : Nat) : U.fitsWithin hops = T.fitsWithin hops := by
  induction hops with
  | zero => rfl
  | succ hops ih =>
    funext r value
    rw [fitsWithin, fitsWithin, ih, h.branchesBy_eq]
    rcases h.check_cases r with heq | ⟨clauses, clauses', hcheck, hcheck'⟩
    · rw [heq]
    · rw [hcheck, hcheck']

omit [DecidableEq ρ] in
theorem labels_eq : U.labels = T.labels := by
  funext r
  rw [labels, labels, h.hops_eq, h.labelsWithin_eq]

omit [DecidableEq ρ] in
theorem labelsOf_eq : U.labelsOf = T.labelsOf := by
  funext rs
  rw [labelsOf, labelsOf, h.labels_eq]

theorem fits_eq : U.fits = T.fits := by
  funext r value
  rw [fits, fits, h.hops_eq, h.fitsWithin_eq]

theorem branches_eq : U.branches = T.branches := by
  funext alternatives value
  rw [branches, branches, h.fits_eq, h.branchesBy_eq]

omit [DecidableEq ρ] in
theorem branchLabels_eq : U.branchLabels = T.branchLabels := by
  funext branch
  cases branch with
  | single r => rw [branchLabels, branchLabels, h.labels_eq]
  | objects rs => rw [branchLabels, branchLabels, h.labelsOf_eq]

end LooksLike

/-! ### Where openings are asked for -/

/-- It is asked what opens a check. Who asks is a disjunction that leaves it to the members to
choose between objects, an object that flattens a disjunction, and a group inside an object; the
question is passed on to the alternatives of a disjunction, and to the flattened checks that may
open an object. -/
inductive Opened (T : Table ρ) (nodes : Set ρ) : ρ → Prop
  | chosen {r o : ρ} {alternatives objects : List ρ} {value : Json} (hr : r ∈ nodes)
      (hcheck : T.check r = .oneOf alternatives)
      (hbranch : .objects objects ∈ T.branches alternatives value) (ho : o ∈ objects) :
      Opened T nodes o
  | flattened {r t a : ρ} {clauses : List (Clause ρ)} {alternatives : List ρ} (hr : r ∈ nodes)
      (hcheck : T.check r = .object clauses) (ht : t ∈ groupFlattenTargets clauses)
      (htarget : T.check t = .oneOf alternatives) (ha : a ∈ alternatives) : Opened T nodes a
  | inner {r t : ρ} {clauses group : List (Clause ρ)} (hr : r ∈ nodes)
      (hcheck : T.check r = .object clauses) (hgroup : group ∈ groupInnerGroups clauses)
      (ht : t ∈ groupOpeningTargets group) : Opened T nodes t
  | alternative {r a : ρ} {alternatives : List ρ} (h : Opened T nodes r)
      (hcheck : T.check r = .oneOf alternatives) (ha : a ∈ alternatives) : Opened T nodes a
  | opening {r t : ρ} {clauses : List (Clause ρ)} (h : Opened T nodes r)
      (hcheck : T.check r = .object clauses) (ht : t ∈ groupOpeningTargets clauses) :
      Opened T nodes t

/-! ### Rewordings -/

/-- A table rewords the objects of another one: their clauses take members in the same way, and are
opened by the same members where it is asked what opens the object. -/
structure Reworded (T U : Table ρ) (nodes : Set ρ) : Prop extends T.LooksLike U where
  /-- The clauses take members in the same way. -/
  sameTakes : ∀ r ∈ nodes, ∀ clauses clauses', T.check r = .object clauses →
    U.check r = .object clauses' → T.SameTakes clauses clauses'
  /-- They are opened by the same members, if this is asked for. -/
  sameOpenings : ∀ r ∈ nodes, U.Opened nodes r → ∀ clauses clauses', T.check r = .object clauses →
    U.check r = .object clauses' → T.SameOpenings (.group clauses) T (.group clauses')

namespace Reworded

section Openings

variable (h : T.Reworded U nodes) (hT : T.Ranked nodes rank) (hU : U.Ranked nodes rank)

include h

/-- A list of clauses is opened by the same members if the flattened checks are that may open it. -/
theorem sameOpenings_group {clauses : List (Clause ρ)}
    (htargets : ∀ t ∈ groupOpeningTargets clauses, T.SameOpenings (.ref t) U (.ref t)) :
    T.SameOpenings (.group clauses) U (.group clauses) where
  firstNames_eq := by
    have hnames : U.firstNames (.group (groupMap id clauses)) = T.firstNames (.group clauses) :=
      groupFirstNames_map clauses fun t ht ↦ (htargets t ht).firstNames_eq
    rwa [groupMap_id] at hnames
  firstChecks_eq name := by
    have hchecks : U.firstChecks name (.group (groupMap id clauses)) =
        (T.firstChecks name (.group clauses)).map id := groupFirstChecks_map clauses fun t ht ↦
      ((htargets t ht).firstChecks_eq name).trans (List.map_id _).symm
    rwa [groupMap_id, List.map_id] at hchecks
  opens_eq name value := by
    have hopens : U.opens name value (.group (groupMap id clauses)) =
        T.opens name value (.group clauses) := groupOpens_map clauses
      (fun r _ ↦ congrFun (congrFun h.fits_eq r) value)
      fun t ht ↦ (htargets t ht).opens_eq name value
    rwa [groupMap_id] at hopens

include hT hU

/-- Where it is asked for, a check is opened by the same members. -/
theorem sameOpenings_ref {r : ρ} (hr : r ∈ nodes) (hopened : U.Opened nodes r) :
    T.SameOpenings (.ref r) U (.ref r) := by
  induction hk : rank r using Nat.strong_induction_on generalizing r with
  | _ k ih =>
    cases hcheck : T.check r with
    | object clauses =>
      obtain ⟨clauses', hcheck'⟩ := h.exists_object hcheck
      have htargets : ∀ t ∈ groupOpeningTargets clauses', T.SameOpenings (.ref t) U (.ref t) := by
        intro t ht
        have hmem := hU.target_of_object hr hcheck' t (groupOpeningTargets_subset clauses' ht)
        exact ih (rank t) (hk ▸ hmem.2) hmem.1 (.opening hopened hcheck' ht) rfl
      -- The first table tells that both lists are opened alike, and it is in the second list that
      -- the flattened checks are looked up through both tables.
      have hgroup := (h.sameOpenings r hr hopened clauses clauses' hcheck hcheck').trans
        (h.sameOpenings_group htargets)
      exact ((hT.sameOpenings_object hr hcheck).trans hgroup).trans
        (hU.sameOpenings_object hr hcheck').symm
    | oneOf alternatives =>
      have hcheck' : U.check r = .oneOf alternatives := h.check_eq_of_isObject hcheck rfl
      have halternatives : ∀ a ∈ alternatives, T.SameOpenings (.ref a) U (.ref a) := by
        intro a ha
        have hmem := hU.mem_of_oneOf hr hcheck' ha
        exact ih (rank a) (hk ▸ hmem.2) hmem.1 (.alternative hopened hcheck' ha) rfl
      constructor
      case firstNames_eq =>
        rw [hU.firstNames_ref_eq hr, hT.firstNames_ref_eq hr, hcheck, hcheck']
        exact congrArg LabelSet.unions
          (List.map_congr_left fun a ha ↦ (halternatives a ha).firstNames_eq)
      case firstChecks_eq =>
        intro name
        rw [hU.firstChecks_ref_eq hr, hT.firstChecks_ref_eq hr, hcheck, hcheck']
        exact List.flatMap_congr fun a ha ↦ (halternatives a ha).firstChecks_eq name
      case opens_eq =>
        intro name value
        rw [hU.opens_ref_eq hr, hT.opens_ref_eq hr, hcheck, hcheck']
        refine congrArg (· == 1) (List.countP_congr fun a ha ↦ ?_)
        rw [(halternatives a ha).opens_eq]
    | kind | literal | regex | arrayOf | anything =>
      have hcheck' := h.check_eq_of_isObject hcheck rfl
      constructor
      case firstNames_eq => rw [hU.firstNames_ref_eq hr, hT.firstNames_ref_eq hr, hcheck, hcheck']
      case firstChecks_eq =>
        intro name
        rw [hU.firstChecks_ref_eq hr, hT.firstChecks_ref_eq hr, hcheck, hcheck']
      case opens_eq =>
        intro name value
        rw [hU.opens_ref_eq hr, hT.opens_ref_eq hr, hcheck, hcheck']

theorem opensAlike {r : ρ} (hr : r ∈ nodes) (hopened : U.Opened nodes r) :
    T.OpensAlike (.ref r) U (.ref r) :=
  (h.sameOpenings_ref hT hU hr hopened).opensAlike (congrFun h.labels_eq)

/-- It is asked what opens a group inside an object. -/
theorem opensAlike_inner {r : ρ} {clauses group : List (Clause ρ)} (hr : r ∈ nodes)
    (hcheck : U.check r = .object clauses) (hgroup : group ∈ groupInnerGroups clauses) :
    T.OpensAlike (.group group) U (.group group) := by
  refine (h.sameOpenings_group fun t ht ↦ ?_).opensAlike (congrFun h.labels_eq)
  have hmem : t ∈ groupFlattenTargets clauses :=
    (subset_of_mem_groupInnerGroups clauses group hgroup).2 (groupOpeningTargets_subset group ht)
  exact h.sameOpenings_ref hT hU (hU.target_of_object hr hcheck t hmem).1
    (.inner hr hcheck hgroup ht)

end Openings

/-! ### Verdicts -/

section Verdicts

variable (h : T.Reworded U nodes) (hT : T.Ranked nodes rank) (hU : U.Ranked nodes rank)

include h hT hU

/-- Flattened checks take members in the same way, given how the parts of the value are treated. -/
theorem takeView_eq {deeper deeper' : PartCheck ρ} {path : Path} {P : Json → Prop}
    (hdeeper : ∀ r ∈ nodes, ∀ path part, P part → deeper' r path part = deeper r path part) {r : ρ}
    (hr : r ∈ nodes)
    (hopened : ∀ alternatives, U.check r = .oneOf alternatives → ∀ a ∈ alternatives,
      U.Opened nodes a)
    (members : Members) (hmembers : ∀ m ∈ members, P m.2) :
    U.takeView deeper' path (.ref r) members = T.takeView deeper path (.ref r) members := by
  induction hk : rank r using Nat.strong_induction_on generalizing r members with
  | _ k ih =>
    rw [hU.takeView_ref_eq hr, hT.takeView_ref_eq hr]
    cases hcheck : T.check r with
    | object clauses =>
      obtain ⟨clauses', hcheck'⟩ := h.exists_object hcheck
      have htargets : ∀ t ∈ {t | t ∈ groupFlattenTargets clauses'}, ∀ members : Members,
          (∀ m ∈ members, P m.2) →
          U.takeView deeper' path (.ref t) members = T.takeView deeper path (.ref t) members := by
        intro t ht members hmembers
        have hmem := hU.target_of_object hr hcheck' t ht
        exact ih (rank t) (hk ▸ hmem.2) hmem.1
          (fun alternatives htarget a ha ↦ .flattened hr hcheck' ht htarget ha) members hmembers rfl
      have hinner : ∀ group ∈ groupInnerGroups clauses',
          T.OpensAlike (.group group) U (.group (groupMap id group)) := by
        intro group hgroup
        rw [groupMap_id]
        exact h.opensAlike_inner hT hU hr hcheck' hgroup
      have hgroup : U.takeView deeper' path (.group (groupMap id clauses')) members =
          T.takeView deeper path (.group clauses') members :=
        takeGroup_map hdeeper (fun _ ↦ takeTargetWithin_rest_sublist) htargets clauses'
          (hU.mem_of_object hr hcheck') (fun t ht ↦ ht) hinner members hmembers
      rw [groupMap_id] at hgroup
      rw [hcheck']
      exact hgroup.trans
        (h.sameTakes r hr clauses clauses' hcheck hcheck' deeper path members)
    | oneOf alternatives =>
      have hcheck' : U.check r = .oneOf alternatives := h.check_eq_of_isObject hcheck rfl
      rw [hcheck']
      refine dispatch_map_congr fun a ha ↦ ?_
      have hmem := hU.mem_of_oneOf hr hcheck' ha
      have hopened := hopened alternatives hcheck' a ha
      exact ⟨h.opensAlike hT hU hmem.1 hopened, ih (rank a) (hk ▸ hmem.2) hmem.1
        (fun others hother b hb ↦ .alternative hopened hother hb) members hmembers rfl⟩
    | kind | literal | regex | arrayOf | anything =>
      rw [h.check_eq_of_isObject hcheck rfl]

/-- A table that rewords another one has the same verdicts. -/
theorem failures_eq {r : ρ} (hr : r ∈ nodes) (path : Path) (value : Json) :
    U.failures r path value = T.failures r path value := by
  -- What is handed to a check is less deep, and between disjunctions the rank decreases.
  induction hd : value.depth using Nat.strong_induction_on generalizing r path value with
  | _ d ihdepth =>
  have hdeeper : ∀ s ∈ nodes, ∀ path part, part.depth < value.depth →
      U.failures s path part = T.failures s path part := fun s hs path part hpart ↦
    ihdepth part.depth (hd ▸ hpart) hs path part rfl
  induction hk : rank r using Nat.strong_induction_on generalizing r with
  | _ k ih =>
    rw [hU.failures_eq hr, hT.failures_eq hr]
    cases hcheck : T.check r with
    | object clauses =>
      obtain ⟨clauses', hcheck'⟩ := h.exists_object hcheck
      rw [hcheck']
      cases value with
      | object members =>
        refine congrArg (closeObject path) ?_
        have htake : U.takeView U.failures path (.ref r) members =
            T.takeView T.failures path (.ref r) members :=
          h.takeView_eq hT hU hdeeper hr
            (fun alternatives hother ↦ absurd (hcheck'.symm.trans hother) (by simp)) members
            fun m hm ↦ Nat.lt_succ_of_le (Json.depth_le_membersDepth hm)
        rwa [hU.takeView_ref_eq hr, hT.takeView_ref_eq hr, hcheck, hcheck'] at htake
      | null | bool | integer | float | string | array => rfl
    | arrayOf element =>
      rw [h.check_eq_of_isObject hcheck rfl]
      have helement : element ∈ nodes :=
        hT.closed r hr element (by rw [hcheck]; exact List.mem_cons_self)
      cases value with
      | array items =>
        refine List.flatMap_congr fun (item, i) hitem ↦ ?_
        have hitem : item ∈ items := (List.mem_zipIdx hitem).2.2 ▸ List.getElem_mem _
        exact hdeeper element helement _ item
          (Nat.lt_succ_of_le (Json.depth_le_itemsDepth hitem))
      | null | bool | integer | float | string | object => rfl
    | oneOf alternatives =>
      have hcheck' : U.check r = .oneOf alternatives := h.check_eq_of_isObject hcheck rfl
      simp only [hcheck', h.branches_eq, h.labelsOf_eq, h.branchLabels_eq]
      rcases hbranches : T.branches alternatives value with _ | ⟨first, _ | ⟨second, rest⟩⟩
      · rfl
      · have hmem : ∀ s ∈ first.refs, s ∈ nodes ∧ rank s < rank r := fun s hs ↦
          hT.mem_branches hr hcheck (hbranches ▸ List.mem_cons_self) hs
        cases first with
        | single only =>
          have honly := hmem only List.mem_cons_self
          exact ih (rank only) (hk ▸ honly.2) honly.1 rfl
        | objects objects =>
          cases value with
          | object members =>
            refine congrArg (closeObject path) (dispatch_map_congr fun o ho ↦ ?_)
            have hopened : U.Opened nodes o := .chosen hr hcheck'
              (by rw [h.branches_eq, hbranches]; exact List.mem_cons_self) ho
            exact ⟨h.opensAlike hT hU (hmem o ho).1 hopened,
              h.takeView_eq hT hU hdeeper (hmem o ho).1
                (fun others hother a ha ↦ .alternative hopened hother ha) members
                fun m hm ↦ Nat.lt_succ_of_le (Json.depth_le_membersDepth hm)⟩
          | null | bool | integer | float | string | array => rfl
      · cases first <;> rfl
    | kind | literal | regex | anything =>
      rw [h.check_eq_of_isObject hcheck rfl]

end Verdicts

end Reworded

end Table

end JsonPattern
