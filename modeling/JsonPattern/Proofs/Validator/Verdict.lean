import JsonPattern.Proofs.Json.Members
import JsonPattern.Proofs.Validator.Dispatch
import JsonPattern.Validator.Verdict

/-!
# Verdicts through a covering

A covering of tables has the same verdicts as the table that it covers, since clauses take members
in the same way through both. What is asked of the parts of a value is asked only of parts that are
less deep, so the levels that are left do not matter above the depth of the value, and the hops that
are left do not matter above the rank.

## Main results

* `Table.takeGroup_map` : clauses take members in the same way through two tables.
* `Table.Covers.takeView_eq` : so do views through a covering.
* `Table.Covers.failures_eq` : a covering has the same verdicts.
-/

namespace JsonPattern

variable {ρ σ : Type} {f : ρ → σ}

namespace Table

/-! ### What is left -/

section Rest

variable [DecidableEq ρ] {T : Table ρ} {deeper : PartCheck ρ} {path : Path}

section Clauses

variable {ofTarget : ρ → Members → Outcome}

theorem takeEither_eq_map (groups : List (List (Clause ρ))) :
    T.takeEither deeper ofTarget path groups =
      groups.map fun group ↦ ⟨.group group, T.takeGroup deeper ofTarget path group⟩ := by
  induction groups with
  | nil => rfl
  | cons group groups ih => exact congrArg _ ih

mutual

theorem takeClause_rest_sublist
    (htarget : ∀ t members, (ofTarget t members).rest.Sublist members) :
    (clause : Clause ρ) → (members : Members) →
    (T.takeClause deeper ofTarget path clause members).rest.Sublist members
  | .named name value, members => by
    rw [takeClause]
    split
    · exact members.without_sublist name
    · exact .refl members
  | .optional group, members => by
    rw [takeClause]
    split
    · exact .refl members
    · exact takeGroup_rest_sublist htarget group members
  | .many _, members => List.nil_sublist members
  | .flatten t, members => htarget t members
  | .oneOf groups, members => by
    rw [takeClause, takeEither_eq_map]
    refine dispatch_rest_sublist ?_
    intro a ha
    obtain ⟨group, hgroup, rfl⟩ := List.mem_map.1 ha
    exact takeGroups_rest_sublist htarget groups group hgroup members

/-- A list of clauses leaves members in their order. -/
theorem takeGroup_rest_sublist
    (htarget : ∀ t members, (ofTarget t members).rest.Sublist members) :
    (group : List (Clause ρ)) → (members : Members) →
    (T.takeGroup deeper ofTarget path group members).rest.Sublist members
  | [], members => .refl members
  | clause :: group, members =>
    (takeGroup_rest_sublist htarget group _).trans
      (takeClause_rest_sublist htarget clause members)

theorem takeGroups_rest_sublist
    (htarget : ∀ t members, (ofTarget t members).rest.Sublist members) :
    (groups : List (List (Clause ρ))) → ∀ group ∈ groups, (members : Members) →
    (T.takeGroup deeper ofTarget path group members).rest.Sublist members
  | [], _, h => absurd h List.not_mem_nil
  | first :: groups, group, h => fun members ↦
    (List.mem_cons.1 h).elim (fun he ↦ he ▸ takeGroup_rest_sublist htarget first members)
      fun h ↦ takeGroups_rest_sublist htarget groups group h members

end

end Clauses

theorem takeTargetWithin_rest_sublist {hops : Nat} {r : ρ} (members : Members) :
    (T.takeTargetWithin deeper path hops r members).rest.Sublist members := by
  induction hops generalizing r members with
  | zero => exact .refl members
  | succ hops ih =>
    rw [takeTargetWithin]
    split
    · next clauses _ => exact takeGroup_rest_sublist (fun _ members ↦ ih members) clauses members
    · refine dispatch_rest_sublist ?_
      intro a ha
      obtain ⟨r, -, rfl⟩ := List.mem_map.1 ha
      exact ih members
    · exact .refl members

end Rest

/-! ### Clauses that are carried over -/

section Clauses

variable [DecidableEq ρ] [DecidableEq σ] {T : Table ρ} {U : Table σ} {nodes targets : Set ρ}
  {deeper : PartCheck ρ} {deeper' : PartCheck σ} {path : Path} {P : Json → Prop}
  {ofTarget : ρ → Members → Outcome} {ofTarget' : σ → Members → Outcome}

mutual

theorem takeClause_map
    (hdeeper : ∀ r ∈ nodes, ∀ path part, P part → deeper' (f r) path part = deeper r path part)
    (hrest : ∀ t members, (ofTarget t members).rest.Sublist members)
    (htarget : ∀ t ∈ targets, ∀ members : Members, (∀ m ∈ members, P m.2) →
      ofTarget' (f t) members = ofTarget t members) :
    (clause : Clause ρ) → (∀ r ∈ clause.refs, r ∈ nodes) →
    (∀ t ∈ clause.flattenTargets, t ∈ targets) →
    (∀ group ∈ clause.innerGroups, T.OpensAlike (.group group) U (.group (groupMap f group))) →
    ∀ members : Members, (∀ m ∈ members, P m.2) →
      U.takeClause deeper' ofTarget' path (clause.map f) members =
        T.takeClause deeper ofTarget path clause members
  | .named name value, hrefs, _, _, members, hmembers => by
    rw [Clause.map, takeClause, takeClause]
    split
    · next part hpart =>
      rw [hdeeper value (hrefs value List.mem_cons_self) _ part
        (hmembers _ (Members.mem_of_lookup hpart))]
    · rfl
  | .optional group, hrefs, htargets, hopens, members, hmembers => by
    have hpresent := (hopens group List.mem_cons_self).present_eq members
    rw [Clause.map, takeClause, takeClause, hpresent,
      takeGroup_map hdeeper hrest htarget group hrefs htargets
        (fun inner hinner ↦ hopens inner (List.mem_cons_of_mem _ hinner)) members hmembers]
  | .many value, hrefs, _, _, members, hmembers => by
    rw [Clause.map, takeClause, takeClause]
    refine congrArg _ (List.flatMap_congr ?_)
    intro m hm
    exact hdeeper value (hrefs value List.mem_cons_self) _ m.2 (hmembers m hm)
  | .flatten t, _, htargets, _, members, hmembers =>
    htarget t (htargets t List.mem_cons_self) members hmembers
  | .oneOf groups, hrefs, htargets, hopens, members, hmembers => by
    rw [Clause.map, takeClause, takeClause, takeEither_eq_map, takeEither_eq_map,
      groupsMap_eq_map, List.map_map]
    refine dispatch_map_congr ?_
    intro group hgroup
    exact ⟨hopens group (mem_groupsInnerGroups hgroup),
      takeGroups_map hdeeper hrest htarget groups hrefs htargets hopens group hgroup members
        hmembers⟩

/-- Through two tables, clauses take members in the same way if they are opened alike and the
parts of the value and flattened checks are treated in the same way. -/
theorem takeGroup_map
    (hdeeper : ∀ r ∈ nodes, ∀ path part, P part → deeper' (f r) path part = deeper r path part)
    (hrest : ∀ t members, (ofTarget t members).rest.Sublist members)
    (htarget : ∀ t ∈ targets, ∀ members : Members, (∀ m ∈ members, P m.2) →
      ofTarget' (f t) members = ofTarget t members) :
    (group : List (Clause ρ)) → (∀ r ∈ groupRefs group, r ∈ nodes) →
    (∀ t ∈ groupFlattenTargets group, t ∈ targets) →
    (∀ inner ∈ groupInnerGroups group,
      T.OpensAlike (.group inner) U (.group (groupMap f inner))) →
    ∀ members : Members, (∀ m ∈ members, P m.2) →
      U.takeGroup deeper' ofTarget' path (groupMap f group) members =
        T.takeGroup deeper ofTarget path group members
  | [], _, _, _, _, _ => rfl
  | clause :: group, hrefs, htargets, hopens, members, hmembers => by
    have hclause := takeClause_map hdeeper hrest htarget clause
      (fun r hr ↦ hrefs r (List.mem_append_left _ hr))
      (fun t ht ↦ htargets t (List.mem_append_left _ ht))
      (fun inner hinner ↦ hopens inner (List.mem_append_left _ hinner)) members hmembers
    have hsub : (T.takeClause deeper ofTarget path clause members).rest ⊆ members :=
      (takeClause_rest_sublist hrest clause members).subset
    have hgroup := takeGroup_map hdeeper hrest htarget group
      (fun r hr ↦ hrefs r (List.mem_append_right _ hr))
      (fun t ht ↦ htargets t (List.mem_append_right _ ht))
      (fun inner hinner ↦ hopens inner (List.mem_append_right _ hinner)) _
      fun m hm ↦ hmembers m (hsub hm)
    rw [groupMap, takeGroup, takeGroup, hclause, Outcome.andThen, Outcome.andThen, hgroup]

theorem takeGroups_map
    (hdeeper : ∀ r ∈ nodes, ∀ path part, P part → deeper' (f r) path part = deeper r path part)
    (hrest : ∀ t members, (ofTarget t members).rest.Sublist members)
    (htarget : ∀ t ∈ targets, ∀ members : Members, (∀ m ∈ members, P m.2) →
      ofTarget' (f t) members = ofTarget t members) :
    (groups : List (List (Clause ρ))) → (∀ r ∈ groupsRefs groups, r ∈ nodes) →
    (∀ t ∈ groupsFlattenTargets groups, t ∈ targets) →
    (∀ inner ∈ groupsInnerGroups groups,
      T.OpensAlike (.group inner) U (.group (groupMap f inner))) →
    ∀ group ∈ groups, ∀ members : Members, (∀ m ∈ members, P m.2) →
      U.takeGroup deeper' ofTarget' path (groupMap f group) members =
        T.takeGroup deeper ofTarget path group members
  | [], _, _, _, _, hgroup, _, _ => absurd hgroup List.not_mem_nil
  | first :: groups, hrefs, htargets, hopens, group, hgroup, members, hmembers => by
    have hfirst := takeGroup_map hdeeper hrest htarget first
      (fun r hr ↦ hrefs r (List.mem_append_left _ hr))
      (fun t ht ↦ htargets t (List.mem_append_left _ ht))
      (fun inner hinner ↦ hopens inner
        (List.mem_append_left _ (List.mem_cons_of_mem _ hinner))) members hmembers
    rcases List.mem_cons.1 hgroup with he | hgroup
    · exact he ▸ hfirst
    · exact takeGroups_map hdeeper hrest htarget groups
        (fun r hr ↦ hrefs r (List.mem_append_right _ hr))
        (fun t ht ↦ htargets t (List.mem_append_right _ ht))
        (fun inner hinner ↦ hopens inner (List.mem_append_right _ hinner)) group hgroup members
        hmembers

end

end Clauses

/-! ### Coverings -/

namespace Covers

variable [DecidableEq ρ] [DecidableEq σ] {T : Table ρ} {U : Table σ} {nodes : Set ρ}
  {rank : ρ → Nat}

section Parts

variable {deeper : PartCheck ρ} {deeper' : PartCheck σ} {path : Path} {P : Json → Prop}

variable (h : T.Covers U f nodes rank)
  (hdeeper : ∀ r ∈ nodes, ∀ path part, P part → deeper' (f r) path part = deeper r path part)

include h hdeeper

theorem takeTargetWithin_eq {m n : Nat} {r : ρ} (hr : r ∈ nodes) (hm : rank r < m)
    (hn : rank r < n) (members : Members) (hmembers : ∀ m ∈ members, P m.2) :
    U.takeTargetWithin deeper' path n (f r) members =
      T.takeTargetWithin deeper path m r members := by
  induction m generalizing n r members with
  | zero => omega
  | succ m ih =>
    obtain ⟨n, rfl⟩ := Nat.exists_eq_succ_of_ne_zero (by omega : n ≠ 0)
    rw [takeTargetWithin, takeTargetWithin, h.check_eq r hr]
    cases hcheck : T.check r with
    | object clauses =>
      have htarget : ∀ t ∈ {t | t ∈ nodes ∧ rank t < rank r}, ∀ members : Members,
          (∀ m ∈ members, P m.2) → U.takeTargetWithin deeper' path n (f t) members =
            T.takeTargetWithin deeper path m t members := by
        rintro t ⟨ht, hlt⟩
        exact ih ht (by omega) (by omega)
      exact takeGroup_map hdeeper (fun _ ↦ takeTargetWithin_rest_sublist) htarget clauses
        (h.mem_of_object hr hcheck) (h.target_of_object hr hcheck)
        (h.opensAlike_innerGroups (h.mem_of_object hr hcheck)) members hmembers
    | oneOf alternatives =>
      simp only [Check.map, List.map_map]
      have hall : ∀ a ∈ alternatives, a ∈ nodes ∧ rank a < rank r :=
        fun a ha ↦ h.mem_of_oneOf hr hcheck ha
      refine dispatch_map_congr ?_
      intro a ha
      have ha := hall a ha
      refine ⟨h.opensAlike (.ref a) fun s hs ↦ ?_,
        ih ha.1 (by omega) (by omega) members hmembers⟩
      exact List.mem_singleton.1 hs ▸ ha.1
    | kind | literal | regex | arrayOf | anything => rfl

theorem takeView_eq (view : View ρ) (hview : ∀ r ∈ view.refs, r ∈ nodes) (members : Members)
    (hmembers : ∀ m ∈ members, P m.2) :
    U.takeView deeper' path (view.map f) members = T.takeView deeper path view members := by
  have htarget : ∀ t ∈ nodes, ∀ members : Members, (∀ m ∈ members, P m.2) →
      U.takeTargetWithin deeper' path U.hops (f t) members =
        T.takeTargetWithin deeper path T.hops t members := fun t ht ↦
    h.takeTargetWithin_eq hdeeper ht (h.lt_hops t ht) (h.lt_hops' t ht)
  cases view with
  | group clauses =>
    exact takeGroup_map hdeeper (fun _ ↦ takeTargetWithin_rest_sublist) htarget clauses hview
      (fun t ht ↦ hview t (groupFlattenTargets_subset clauses ht))
      (h.opensAlike_innerGroups hview) members hmembers
  | ref target => exact htarget target (hview target List.mem_cons_self) members hmembers

end Parts

variable (h : T.Covers U f nodes rank)

include h

theorem branchLabels_eq {branch : Branch ρ} (hbranch : ∀ r ∈ branch.refs, r ∈ nodes) :
    U.branchLabels (branch.map f) = T.branchLabels branch := by
  cases branch with
  | single r => exact h.labels_eq (hbranch r List.mem_cons_self)
  | objects rs => exact h.labelsOf_eq hbranch

theorem failuresHere_eq {deeper : PartCheck ρ} {deeper' : PartCheck σ} {path : Path} {value : Json}
    (hdeeper : ∀ r ∈ nodes, ∀ path part, part.depth < value.depth →
      deeper' (f r) path part = deeper r path part)
    {m n : Nat} {r : ρ} (hr : r ∈ nodes) (hm : rank r < m) (hn : rank r < n) :
    U.failuresHere deeper' n (f r) path value = T.failuresHere deeper m r path value := by
  induction m generalizing n r with
  | zero => omega
  | succ m ih =>
    obtain ⟨n, rfl⟩ := Nat.exists_eq_succ_of_ne_zero (by omega : n ≠ 0)
    rw [failuresHere, failuresHere, h.check_eq r hr]
    cases hcheck : T.check r with
    | arrayOf element =>
      have helement : element ∈ nodes :=
        h.closed r hr element (by rw [hcheck]; exact List.mem_cons_self)
      cases value with
      | array items =>
        refine List.flatMap_congr fun (item, i) hitem ↦ ?_
        have hitem : item ∈ items := (List.mem_zipIdx hitem).2.2 ▸ List.getElem_mem _
        exact hdeeper element helement _ item
          (Nat.lt_succ_of_le (Json.depth_le_itemsDepth hitem))
      | null | bool | integer | float | string | object => rfl
    | object clauses =>
      cases value with
      | object members =>
        refine congrArg (closeObject path) ?_
        exact h.takeView_eq hdeeper (.group clauses) (h.mem_of_object hr hcheck) members
          fun member hmember ↦ Nat.lt_succ_of_le (Json.depth_le_membersDepth hmember)
      | null | bool | integer | float | string | array => rfl
    | oneOf alternatives =>
      have hall : ∀ a ∈ alternatives, a ∈ nodes := fun a ha ↦ (h.mem_of_oneOf hr hcheck ha).1
      have hbranch : ∀ branch ∈ T.branches alternatives value, ∀ s ∈ branch.refs,
          s ∈ nodes ∧ rank s < rank r := fun branch hbranch s hs ↦
        h.mem_branches hr hcheck hbranch hs
      simp only [Check.map, h.branches_eq hr hcheck, h.labelsOf_eq hall]
      rcases hbranches : T.branches alternatives value with _ | ⟨first, _ | ⟨second, rest⟩⟩
      · rfl
      · have hfirst := hbranch first (by rw [hbranches]; exact List.mem_cons_self)
        cases first with
        | single only =>
          have honly := hfirst only List.mem_cons_self
          exact ih honly.1 (by omega) (by omega)
        | objects objects =>
          cases value with
          | object members =>
            simp only [Branch.map, List.map_cons, List.map_nil, List.map_map]
            refine congrArg (closeObject path) ?_
            refine dispatch_map_congr ?_
            intro o ho
            have hview : ∀ s ∈ (View.ref o).refs, s ∈ nodes := fun s hs ↦
              List.mem_singleton.1 hs ▸ (hfirst o ho).1
            exact ⟨h.opensAlike (.ref o) hview, h.takeView_eq hdeeper (.ref o) hview members
              fun member hmember ↦ Nat.lt_succ_of_le (Json.depth_le_membersDepth hmember)⟩
          | null | bool | integer | float | string | array => rfl
      · have hlabels : ((first :: second :: rest).map (Branch.map f)).map U.branchLabels =
            (first :: second :: rest).map T.branchLabels := by
          rw [List.map_map]
          refine List.map_congr_left ?_
          intro branch hmem
          exact h.branchLabels_eq fun s hs ↦ (hbranch branch (by rw [hbranches]; exact hmem) s hs).1
        have hgoal := congrArg (fun labels ↦ [Failure.ambiguous path value.shallowText
          (.unions labels)]) hlabels
        cases first <;> exact hgoal
    | kind | literal | regex | anything => rfl

theorem failuresWithin_eq {k l : Nat} {r : ρ} {path : Path} {value : Json} (hr : r ∈ nodes)
    (hk : value.depth < k) (hl : value.depth < l) :
    U.failuresWithin l (f r) path value = T.failuresWithin k r path value := by
  induction k generalizing l r path value with
  | zero => omega
  | succ k ih =>
    obtain ⟨l, rfl⟩ := Nat.exists_eq_succ_of_ne_zero (by omega : l ≠ 0)
    exact h.failuresHere_eq (fun s hs path part hpart ↦ ih hs (by omega) (by omega)) hr
      (h.lt_hops r hr) (h.lt_hops' r hr)

/-- A covering has the same verdicts. -/
theorem failures_eq {r : ρ} {path : Path} {value : Json} (hr : r ∈ nodes) :
    U.failures (f r) path value = T.failures r path value :=
  h.failuresWithin_eq hr (Nat.lt_succ_self _) (Nat.lt_succ_self _)

end Covers

end Table

end JsonPattern
