import JsonPattern.Proofs.Pattern.Openings
import JsonPattern.Proofs.Validator.Covering
import JsonPattern.Validator.Opening
import Mathlib.Data.List.Basic

/-!
# Openings of views

The names, checks and values that open a view agree through a covering of tables, and none of them
depends on the hops that are left above the rank.

## Main definitions

* `View.refs`, `View.flattenTargets`, `View.openingTargets` : the references of a view.

## Main results

* `groupFirstNames_map`, `groupFirstChecks_map`, `groupOpens_map` : openings of clauses through two
  tables.
* `Table.Covers.firstNames_eq`, `Table.Covers.firstChecks_eq`, `Table.Covers.opens_eq` : openings of
  views through a covering.
* `Table.mem_firstNames_of_opens`, `Table.mem_firstNames_of_mem_firstChecks` : what opens a view has
  one of its first names.
-/

namespace JsonPattern

variable {ρ σ : Type} {f : ρ → σ}

/-! ### Lists of clauses -/

section FirstNames

variable {ofTarget : ρ → LabelSet} {ofTarget' : σ → LabelSet}

mutual

theorem Clause.firstNames_map : (clause : Clause ρ) →
    (∀ t ∈ clause.openingTargets, ofTarget' (f t) = ofTarget t) →
    (clause.map f).firstNames ofTarget' = clause.firstNames ofTarget
  | .named _ _, _ => rfl
  | .optional group, h => groupFirstNames_map group h
  | .many _, _ => rfl
  | .flatten t, h => h t List.mem_cons_self
  | .oneOf groups, h => groupsFirstNames_map groups h

theorem groupFirstNames_map : (group : List (Clause ρ)) →
    (∀ t ∈ groupOpeningTargets group, ofTarget' (f t) = ofTarget t) →
    groupFirstNames ofTarget' (groupMap f group) = groupFirstNames ofTarget group
  | [], _ => rfl
  | clause :: group, h => by
    obtain ⟨hclause, hgroup⟩ := forall_groupOpeningTargets_cons h
    rw [groupMap, groupFirstNames, groupFirstNames, clause.firstNames_map hclause,
      Clause.isOptional_map]
    split
    · next hoptional => rw [groupFirstNames_map group (hgroup hoptional)]
    · rfl

theorem groupsFirstNames_map : (groups : List (List (Clause ρ))) →
    (∀ t ∈ groupsOpeningTargets groups, ofTarget' (f t) = ofTarget t) →
    groupsFirstNames ofTarget' (groupsMap f groups) = groupsFirstNames ofTarget groups
  | [], _ => rfl
  | group :: groups, h => congrArg₂ (· ∪ ·)
      (groupFirstNames_map group fun t ht ↦ h t (List.mem_append_left _ ht))
      (groupsFirstNames_map groups fun t ht ↦ h t (List.mem_append_right _ ht))

end

end FirstNames

section FirstChecks

variable {ofTarget : ρ → List ρ} {ofTarget' : σ → List σ} {name : String}

mutual

theorem Clause.firstChecks_map : (clause : Clause ρ) →
    (∀ t ∈ clause.openingTargets, ofTarget' (f t) = (ofTarget t).map f) →
    (clause.map f).firstChecks ofTarget' name = (clause.firstChecks ofTarget name).map f
  | .named own value, _ => by
    simp only [Clause.map, Clause.firstChecks]
    split <;> rfl
  | .optional group, h => groupFirstChecks_map group h
  | .many _, _ => rfl
  | .flatten t, h => h t List.mem_cons_self
  | .oneOf groups, h => groupsFirstChecks_map groups h

theorem groupFirstChecks_map : (group : List (Clause ρ)) →
    (∀ t ∈ groupOpeningTargets group, ofTarget' (f t) = (ofTarget t).map f) →
    groupFirstChecks ofTarget' name (groupMap f group) =
      (groupFirstChecks ofTarget name group).map f
  | [], _ => rfl
  | clause :: group, h => by
    obtain ⟨hclause, hgroup⟩ := forall_groupOpeningTargets_cons h
    rw [groupMap, groupFirstChecks, groupFirstChecks, clause.firstChecks_map hclause,
      Clause.isOptional_map]
    split
    · next hoptional => rw [groupFirstChecks_map group (hgroup hoptional), List.map_append]
    · rfl

theorem groupsFirstChecks_map : (groups : List (List (Clause ρ))) →
    (∀ t ∈ groupsOpeningTargets groups, ofTarget' (f t) = (ofTarget t).map f) →
    groupsFirstChecks ofTarget' name (groupsMap f groups) =
      (groupsFirstChecks ofTarget name groups).map f
  | [], _ => rfl
  | group :: groups, h => by
    have hgroup := groupFirstChecks_map group fun t ht ↦ h t (List.mem_append_left _ ht)
    have hgroups := groupsFirstChecks_map groups fun t ht ↦ h t (List.mem_append_right _ ht)
    rw [groupsMap, groupsFirstChecks, groupsFirstChecks, hgroup, hgroups, List.map_append]

end

variable {P : ρ → Prop}

mutual

theorem Clause.of_mem_firstChecks : (clause : Clause ρ) → (∀ r ∈ clause.refs, P r) →
    (∀ t ∈ clause.flattenTargets, ∀ s ∈ ofTarget t, P s) →
    ∀ s ∈ clause.firstChecks ofTarget name, P s
  | .named own value, h, _ => fun s hs ↦ by
    rw [Clause.firstChecks] at hs
    split at hs
    · exact h s hs
    · exact absurd hs List.not_mem_nil
  | .optional group, h, ht => of_mem_groupFirstChecks group h ht
  | .many _, _, _ => fun _ hs ↦ absurd hs List.not_mem_nil
  | .flatten t, _, ht => ht t List.mem_cons_self
  | .oneOf groups, h, ht => of_mem_groupsFirstChecks groups h ht

/-- What holds of the references of a list of clauses and of the checks that may apply to the
member that opens its flatten targets holds of those for the list. -/
theorem of_mem_groupFirstChecks : (group : List (Clause ρ)) → (∀ r ∈ groupRefs group, P r) →
    (∀ t ∈ groupFlattenTargets group, ∀ s ∈ ofTarget t, P s) →
    ∀ s ∈ groupFirstChecks ofTarget name group, P s
  | [], _, _ => fun _ hs ↦ absurd hs List.not_mem_nil
  | clause :: group, h, ht => fun s hs ↦ by
    have hclause := clause.of_mem_firstChecks (fun r hr ↦ h r (List.mem_append_left _ hr))
      fun t hmem ↦ ht t (List.mem_append_left _ hmem)
    have hgroup := of_mem_groupFirstChecks group (fun r hr ↦ h r (List.mem_append_right _ hr))
      fun t hmem ↦ ht t (List.mem_append_right _ hmem)
    rw [groupFirstChecks] at hs
    split at hs
    · exact (List.mem_append.1 hs).elim (hclause s) (hgroup s)
    · exact hclause s hs

theorem of_mem_groupsFirstChecks : (groups : List (List (Clause ρ))) →
    (∀ r ∈ groupsRefs groups, P r) → (∀ t ∈ groupsFlattenTargets groups, ∀ s ∈ ofTarget t, P s) →
    ∀ s ∈ groupsFirstChecks ofTarget name groups, P s
  | [], _, _ => fun _ hs ↦ absurd hs List.not_mem_nil
  | group :: groups, h, ht => fun s hs ↦
    (List.mem_append.1 hs).elim
      (of_mem_groupFirstChecks group (fun r hr ↦ h r (List.mem_append_left _ hr))
        (fun t hmem ↦ ht t (List.mem_append_left _ hmem)) s)
      (of_mem_groupsFirstChecks groups (fun r hr ↦ h r (List.mem_append_right _ hr))
        (fun t hmem ↦ ht t (List.mem_append_right _ hmem)) s)

end

end FirstChecks

section Opens

variable {fits : ρ → Bool} {fits' : σ → Bool} {ofTarget : ρ → Bool} {ofTarget' : σ → Bool}
  {name : String}

mutual

theorem Clause.opens_map : (clause : Clause ρ) → (∀ r ∈ clause.refs, fits' (f r) = fits r) →
    (∀ t ∈ clause.openingTargets, ofTarget' (f t) = ofTarget t) →
    (clause.map f).opens fits' ofTarget' name = clause.opens fits ofTarget name
  | .named own value, h, _ => congrArg (own == name && ·) (h value List.mem_cons_self)
  | .optional group, h, ht => groupOpens_map group h ht
  | .many _, _, _ => rfl
  | .flatten t, _, ht => ht t List.mem_cons_self
  | .oneOf groups, h, ht => congrArg (· == 1) (groupsOpened_map groups h ht)

theorem groupOpens_map : (group : List (Clause ρ)) →
    (∀ r ∈ groupRefs group, fits' (f r) = fits r) →
    (∀ t ∈ groupOpeningTargets group, ofTarget' (f t) = ofTarget t) →
    groupOpens fits' ofTarget' name (groupMap f group) = groupOpens fits ofTarget name group
  | [], _, _ => rfl
  | clause :: group, h, ht => by
    obtain ⟨hclause, hgroup⟩ := forall_groupOpeningTargets_cons ht
    rw [groupMap, groupOpens, groupOpens,
      clause.opens_map (fun r hr ↦ h r (List.mem_append_left _ hr)) hclause, Clause.isOptional_map]
    cases hoptional : clause.isOptional with
    | true =>
      rw [groupOpens_map group (fun r hr ↦ h r (List.mem_append_right _ hr)) (hgroup hoptional)]
    | false => rfl

theorem groupsOpened_map : (groups : List (List (Clause ρ))) →
    (∀ r ∈ groupsRefs groups, fits' (f r) = fits r) →
    (∀ t ∈ groupsOpeningTargets groups, ofTarget' (f t) = ofTarget t) →
    groupsOpened fits' ofTarget' name (groupsMap f groups) =
      groupsOpened fits ofTarget name groups
  | [], _, _ => rfl
  | group :: groups, h, ht => by
    have hgroup := groupOpens_map group (fun r hr ↦ h r (List.mem_append_left _ hr))
      fun t hmem ↦ ht t (List.mem_append_left _ hmem)
    have hgroups := groupsOpened_map groups (fun r hr ↦ h r (List.mem_append_right _ hr))
      fun t hmem ↦ ht t (List.mem_append_right _ hmem)
    rw [groupsMap, groupsOpened, groupsOpened, hgroup, hgroups]

end

end Opens

/-! ### Opened clauses -/

theorem mem_groupsFirstNames {ofTarget : ρ → LabelSet} {groups : List (List (Clause ρ))}
    {name : String} :
    name ∈ groupsFirstNames ofTarget groups ↔
      ∃ group ∈ groups, name ∈ groupFirstNames ofTarget group := by
  induction groups with
  | nil => simp [groupsFirstNames]
  | cons group groups ih => simp [groupsFirstNames, ih]

theorem groupsOpened_eq_countP {fits ofTarget : ρ → Bool} {name : String}
    (groups : List (List (Clause ρ))) :
    groupsOpened fits ofTarget name groups = groups.countP (groupOpens fits ofTarget name) := by
  induction groups with
  | nil => rfl
  | cons group groups ih =>
    rw [groupsOpened, ih, List.countP_cons, Nat.add_comm]

/-- Where exactly one element passes a test, some element does. -/
private theorem exists_of_countP_eq_one {α : Type} {p : α → Bool} {as : List α}
    (h : (as.countP p == 1) = true) : ∃ a ∈ as, p a = true := by
  refine List.countP_pos_iff.1 ?_
  rw [eq_of_beq h]
  exact Nat.one_pos

section FirstChecks

variable {ofTarget : ρ → List ρ} {ofNames : ρ → LabelSet} {name : String}

mutual

theorem Clause.mem_firstNames_of_mem_firstChecks
    (htarget : ∀ t, ∀ s ∈ ofTarget t, name ∈ ofNames t) :
    (clause : Clause ρ) → ∀ s ∈ clause.firstChecks ofTarget name, name ∈ clause.firstNames ofNames
  | .named own value, s, hs => by
    rw [Clause.firstChecks] at hs
    split at hs
    · next hown => exact LabelSet.mem_singleton.2 (eq_of_beq hown).symm
    · exact absurd hs List.not_mem_nil
  | .optional group, s, hs => mem_groupFirstNames_of_mem_firstChecks htarget group s hs
  | .many _, _, hs => absurd hs List.not_mem_nil
  | .flatten t, s, hs => htarget t s hs
  | .oneOf groups, s, hs => mem_groupsFirstNames_of_mem_firstChecks htarget groups s hs

/-- If a check may apply to the member that opens a list of clauses, its name may open the list. -/
theorem mem_groupFirstNames_of_mem_firstChecks
    (htarget : ∀ t, ∀ s ∈ ofTarget t, name ∈ ofNames t) :
    (group : List (Clause ρ)) → ∀ s ∈ groupFirstChecks ofTarget name group,
    name ∈ groupFirstNames ofNames group
  | [], _, hs => absurd hs List.not_mem_nil
  | clause :: group, s, hs => by
    have hclause := clause.mem_firstNames_of_mem_firstChecks htarget s
    rw [groupFirstChecks] at hs
    rw [groupFirstNames]
    split at hs
    · next hoptional =>
      rw [if_pos hoptional]
      exact LabelSet.mem_union.2 ((List.mem_append.1 hs).imp hclause
        (mem_groupFirstNames_of_mem_firstChecks htarget group s))
    · next hoptional =>
      rw [if_neg hoptional]
      exact hclause hs

theorem mem_groupsFirstNames_of_mem_firstChecks
    (htarget : ∀ t, ∀ s ∈ ofTarget t, name ∈ ofNames t) :
    (groups : List (List (Clause ρ))) → ∀ s ∈ groupsFirstChecks ofTarget name groups,
    name ∈ groupsFirstNames ofNames groups
  | [], _, hs => absurd hs List.not_mem_nil
  | group :: groups, s, hs => LabelSet.mem_union.2 ((List.mem_append.1 hs).imp
      (mem_groupFirstNames_of_mem_firstChecks htarget group s)
      (mem_groupsFirstNames_of_mem_firstChecks htarget groups s))

end

end FirstChecks

section Opens

variable {fits ofTarget : ρ → Bool} {ofNames : ρ → LabelSet} {name : String}

mutual

theorem Clause.mem_firstNames_of_opens (htarget : ∀ t, ofTarget t = true → name ∈ ofNames t) :
    (clause : Clause ρ) → clause.opens fits ofTarget name = true →
    name ∈ clause.firstNames ofNames
  | .named own value, h => by
    have hown : own = name := eq_of_beq (Bool.and_eq_true_iff.1 h).1
    exact LabelSet.mem_singleton.2 hown.symm
  | .optional group, h => mem_groupFirstNames_of_opens htarget group h
  | .many _, h => absurd h Bool.false_ne_true
  | .flatten t, h => htarget t h
  | .oneOf groups, h => by
    rw [Clause.opens, groupsOpened_eq_countP] at h
    obtain ⟨group, hgroup, hopens⟩ := exists_of_countP_eq_one h
    exact mem_groupsFirstNames.2
      ⟨group, hgroup, mem_groupsFirstNames_of_opens htarget groups group hgroup hopens⟩

/-- What opens a list of clauses has one of its first names. -/
theorem mem_groupFirstNames_of_opens (htarget : ∀ t, ofTarget t = true → name ∈ ofNames t) :
    (group : List (Clause ρ)) → groupOpens fits ofTarget name group = true →
    name ∈ groupFirstNames ofNames group
  | [], h => absurd h Bool.false_ne_true
  | clause :: group, h => by
    have hclause := clause.mem_firstNames_of_opens htarget
    have hgroup := mem_groupFirstNames_of_opens htarget group
    rw [groupOpens, Bool.or_eq_true, Bool.and_eq_true] at h
    rw [groupFirstNames]
    rcases h with h | ⟨hoptional, h⟩
    · split
      · exact LabelSet.mem_union.2 (.inl (hclause h))
      · exact hclause h
    · rw [if_pos hoptional]
      exact LabelSet.mem_union.2 (.inr (hgroup h))

theorem mem_groupsFirstNames_of_opens (htarget : ∀ t, ofTarget t = true → name ∈ ofNames t) :
    (groups : List (List (Clause ρ))) → ∀ group ∈ groups,
    groupOpens fits ofTarget name group = true → name ∈ groupFirstNames ofNames group
  | [], _, hgroup => absurd hgroup List.not_mem_nil
  | first :: groups, group, hgroup => by
    have hfirst := mem_groupFirstNames_of_opens htarget first
    rcases List.mem_cons.1 hgroup with he | hgroup
    · exact he ▸ hfirst
    · exact mem_groupsFirstNames_of_opens htarget groups group hgroup

end

end Opens

/-! ### Views -/

namespace View

/-- The references of a view. -/
def refs : View ρ → List ρ
  | .group clauses => groupRefs clauses
  | .ref target => [target]

/-- The references by which a view takes members of other checks. -/
def flattenTargets : View ρ → List ρ
  | .group clauses => groupFlattenTargets clauses
  | .ref target => [target]

/-- Replaces every reference of a view. -/
def map (f : ρ → σ) : View ρ → View σ
  | .group clauses => .group (groupMap f clauses)
  | .ref target => .ref (f target)

/-- The references by which other checks may open a view. -/
def openingTargets : View ρ → List ρ
  | .group clauses => groupOpeningTargets clauses
  | .ref target => [target]

theorem openingTargets_subset (view : View ρ) : view.openingTargets ⊆ view.refs := by
  cases view with
  | group clauses =>
    exact List.Subset.trans (groupOpeningTargets_subset clauses)
      (groupFlattenTargets_subset clauses)
  | ref target => exact List.Subset.refl _

theorem mem_of_mem_refs_map_ref {nodes : Set ρ} {rs : List ρ} (hrs : ∀ r ∈ rs, r ∈ nodes) :
    ∀ view ∈ rs.map View.ref, ∀ s ∈ view.refs, s ∈ nodes := by
  intro view hview s hs
  obtain ⟨r, hr, rfl⟩ := List.mem_map.1 hview
  exact List.mem_singleton.1 hs ▸ hrs r hr

end View

namespace Table

variable [DecidableEq ρ] [DecidableEq σ] {T : Table ρ} {U : Table σ} {nodes : Set ρ}
  {rank : ρ → Nat}

namespace Ranked

variable {r : ρ} {clauses : List (Clause ρ)}

omit [DecidableEq ρ] in
theorem mem_of_object (h : T.Ranked nodes rank) (hr : r ∈ nodes)
    (hcheck : T.check r = .object clauses) : ∀ s ∈ groupRefs clauses, s ∈ nodes :=
  fun s hs ↦ h.closed r hr s (by rw [hcheck]; exact hs)

omit [DecidableEq ρ] in
theorem target_of_object (h : T.Ranked nodes rank) (hr : r ∈ nodes)
    (hcheck : T.check r = .object clauses) :
    ∀ t ∈ groupFlattenTargets clauses, t ∈ nodes ∧ rank t < rank r := fun t ht ↦
  ⟨h.mem_of_object hr hcheck t (groupFlattenTargets_subset clauses ht),
    h.descends r hr t (by rw [hcheck]; exact ht)⟩

omit [DecidableEq ρ] in
/-- The checks that may apply to the member that opens a check belong to the same references. -/
theorem mem_firstChecksWithin (h : T.Ranked nodes rank) {name : String} {hops : Nat}
    (hr : r ∈ nodes) : ∀ s ∈ T.firstChecksWithin name hops r, s ∈ nodes := by
  induction hops generalizing r with
  | zero => exact fun s hs ↦ absurd hs List.not_mem_nil
  | succ hops ih =>
    rw [firstChecksWithin]
    split
    · next clauses hcheck =>
      exact of_mem_groupFirstChecks clauses (h.mem_of_object hr hcheck)
        fun t ht ↦ ih (h.target_of_object hr hcheck t ht).1
    · next alternatives hcheck =>
      intro s hs
      obtain ⟨a, ha, hs⟩ := List.mem_flatMap.1 hs
      exact ih (h.mem_of_oneOf hr hcheck ha).1 s hs
    · exact fun s hs ↦ absurd hs List.not_mem_nil

omit [DecidableEq ρ] in
theorem mem_firstChecks (h : T.Ranked nodes rank) {name : String} {view : View ρ}
    (hview : ∀ r ∈ view.refs, r ∈ nodes) : ∀ s ∈ T.firstChecks name view, s ∈ nodes := by
  cases view with
  | group clauses =>
    exact of_mem_groupFirstChecks clauses hview fun t ht ↦
      h.mem_firstChecksWithin (hview t (groupFlattenTargets_subset clauses ht))
  | ref target => exact h.mem_firstChecksWithin (hview target List.mem_cons_self)

end Ranked

namespace Covers

variable (h : T.Covers U f nodes rank)

include h

theorem firstNamesWithin_eq {m n : Nat} {r : ρ} (hr : r ∈ nodes) (hm : rank r < m)
    (hn : rank r < n) : U.firstNamesWithin n (f r) = T.firstNamesWithin m r := by
  induction m generalizing n r with
  | zero => omega
  | succ m ih =>
    obtain ⟨n, rfl⟩ := Nat.exists_eq_succ_of_ne_zero (by omega : n ≠ 0)
    rw [firstNamesWithin, firstNamesWithin, h.check_eq r hr]
    cases hcheck : T.check r with
    | object clauses =>
      refine groupFirstNames_map clauses ?_
      intro t ht
      have ht := h.target_of_object hr hcheck t (groupOpeningTargets_subset clauses ht)
      exact ih ht.1 (by omega) (by omega)
    | oneOf alternatives =>
      simp only [Check.map, List.map_map]
      refine congrArg LabelSet.unions (List.map_congr_left ?_)
      intro a ha
      have ha := h.mem_of_oneOf hr hcheck ha
      exact ih ha.1 (by omega) (by omega)
    | kind | literal | regex | arrayOf | anything => rfl

theorem firstChecksWithin_eq {name : String} {m n : Nat} {r : ρ} (hr : r ∈ nodes)
    (hm : rank r < m) (hn : rank r < n) :
    U.firstChecksWithin name n (f r) = (T.firstChecksWithin name m r).map f := by
  induction m generalizing n r with
  | zero => omega
  | succ m ih =>
    obtain ⟨n, rfl⟩ := Nat.exists_eq_succ_of_ne_zero (by omega : n ≠ 0)
    rw [firstChecksWithin, firstChecksWithin, h.check_eq r hr]
    cases hcheck : T.check r with
    | object clauses =>
      refine groupFirstChecks_map clauses ?_
      intro t ht
      have ht := h.target_of_object hr hcheck t (groupOpeningTargets_subset clauses ht)
      exact ih ht.1 (by omega) (by omega)
    | oneOf alternatives =>
      simp only [Check.map, List.flatMap_map, List.map_flatMap]
      refine List.flatMap_congr ?_
      intro a ha
      have ha := h.mem_of_oneOf hr hcheck ha
      exact ih ha.1 (by omega) (by omega)
    | kind | literal | regex | arrayOf | anything => rfl

theorem opensWithin_eq {name : String} {value : Json} {m n : Nat} {r : ρ} (hr : r ∈ nodes)
    (hm : rank r < m) (hn : rank r < n) :
    U.opensWithin name value n (f r) = T.opensWithin name value m r := by
  induction m generalizing n r with
  | zero => omega
  | succ m ih =>
    obtain ⟨n, rfl⟩ := Nat.exists_eq_succ_of_ne_zero (by omega : n ≠ 0)
    rw [opensWithin, opensWithin, h.check_eq r hr]
    cases hcheck : T.check r with
    | object clauses =>
      refine groupOpens_map clauses
        (fun s hs ↦ h.fits_eq (h.mem_of_object hr hcheck s hs)) fun t ht ↦ ?_
      have ht := h.target_of_object hr hcheck t (groupOpeningTargets_subset clauses ht)
      exact ih ht.1 (by omega) (by omega)
    | oneOf alternatives =>
      simp only [Check.map, List.countP_map]
      refine congrArg (· == 1) (List.countP_congr ?_)
      intro a ha
      have ha := h.mem_of_oneOf hr hcheck ha
      simp only [Function.comp, ih ha.1 (by omega : rank a < m) (by omega : rank a < n)]
    | kind | literal | regex | arrayOf | anything => rfl

variable (view : View ρ) (hview : ∀ r ∈ view.refs, r ∈ nodes)

include hview

theorem firstNames_eq : U.firstNames (view.map f) = T.firstNames view := by
  have htarget : ∀ t ∈ view.openingTargets,
      U.firstNamesWithin U.hops (f t) = T.firstNamesWithin T.hops t := fun t ht ↦ by
    have ht := hview t (view.openingTargets_subset ht)
    exact h.firstNamesWithin_eq ht (h.lt_hops t ht) (h.lt_hops' t ht)
  cases view with
  | group clauses => exact groupFirstNames_map clauses htarget
  | ref target => exact htarget target List.mem_cons_self

theorem firstChecks_eq {name : String} :
    U.firstChecks name (view.map f) = (T.firstChecks name view).map f := by
  have htarget : ∀ t ∈ view.openingTargets,
      U.firstChecksWithin name U.hops (f t) = (T.firstChecksWithin name T.hops t).map f :=
    fun t ht ↦ by
      have ht := hview t (view.openingTargets_subset ht)
      exact h.firstChecksWithin_eq ht (h.lt_hops t ht) (h.lt_hops' t ht)
  cases view with
  | group clauses => exact groupFirstChecks_map clauses htarget
  | ref target => exact htarget target List.mem_cons_self

theorem opens_eq {name : String} {value : Json} :
    U.opens name value (view.map f) = T.opens name value view := by
  have htarget : ∀ t ∈ view.openingTargets,
      U.opensWithin name value U.hops (f t) = T.opensWithin name value T.hops t := fun t ht ↦ by
    have ht := hview t (view.openingTargets_subset ht)
    exact h.opensWithin_eq ht (h.lt_hops t ht) (h.lt_hops' t ht)
  cases view with
  | group clauses =>
    exact groupOpens_map clauses (fun r hr ↦ h.fits_eq (hview r hr)) htarget
  | ref target => exact htarget target List.mem_cons_self

end Covers

/-! ### Opened views -/

omit [DecidableEq ρ] in
@[simp]
theorem mem_present {view : View ρ} {members : Members} {name : String} :
    name ∈ T.present view members ↔ name ∈ T.firstNames view ∧ (members.lookup name).isSome :=
  LabelSet.mem_filter

theorem mem_firstNamesWithin_of_opens {name : String} {value : Json} {hops : Nat} {r : ρ}
    (h : T.opensWithin name value hops r = true) : name ∈ T.firstNamesWithin hops r := by
  induction hops generalizing r with
  | zero => exact absurd h Bool.false_ne_true
  | succ hops ih =>
    rw [opensWithin] at h
    rw [firstNamesWithin]
    cases hcheck : T.check r with
    | object clauses =>
      rw [hcheck] at h
      exact mem_groupFirstNames_of_opens (fun t ↦ ih) clauses h
    | oneOf alternatives =>
      rw [hcheck] at h
      obtain ⟨a, ha, hopens⟩ := exists_of_countP_eq_one h
      exact LabelSet.mem_unions.2 ⟨_, List.mem_map_of_mem ha, ih hopens⟩
    | kind | literal | regex | arrayOf | anything =>
      rw [hcheck] at h
      exact absurd h Bool.false_ne_true

/-- What opens a view has one of its first names. -/
theorem mem_firstNames_of_opens {name : String} {value : Json} {view : View ρ}
    (h : T.opens name value view = true) : name ∈ T.firstNames view := by
  cases view with
  | group clauses =>
    exact mem_groupFirstNames_of_opens (fun _ ↦ mem_firstNamesWithin_of_opens) clauses h
  | ref target => exact mem_firstNamesWithin_of_opens h

omit [DecidableEq ρ] in
theorem mem_firstNamesWithin_of_mem_firstChecks {name : String} {hops : Nat} {r s : ρ}
    (h : s ∈ T.firstChecksWithin name hops r) : name ∈ T.firstNamesWithin hops r := by
  induction hops generalizing r s with
  | zero => exact absurd h List.not_mem_nil
  | succ hops ih =>
    rw [firstChecksWithin] at h
    rw [firstNamesWithin]
    cases hcheck : T.check r with
    | object clauses =>
      rw [hcheck] at h
      exact mem_groupFirstNames_of_mem_firstChecks (fun t s hs ↦ ih hs) clauses s h
    | oneOf alternatives =>
      rw [hcheck] at h
      obtain ⟨a, ha, hs⟩ := List.mem_flatMap.1 h
      exact LabelSet.mem_unions.2 ⟨_, List.mem_map_of_mem ha, ih hs⟩
    | kind | literal | regex | arrayOf | anything =>
      rw [hcheck] at h
      exact absurd h List.not_mem_nil

omit [DecidableEq ρ] in
/-- If a check may apply to the member that opens a view, its name is one of the first names. -/
theorem mem_firstNames_of_mem_firstChecks {name : String} {view : View ρ} {s : ρ}
    (h : s ∈ T.firstChecks name view) : name ∈ T.firstNames view := by
  cases view with
  | group clauses =>
    exact mem_groupFirstNames_of_mem_firstChecks
      (fun _ _ hs ↦ mem_firstNamesWithin_of_mem_firstChecks hs) clauses s h
  | ref target => exact mem_firstNamesWithin_of_mem_firstChecks h

end Table

end JsonPattern
