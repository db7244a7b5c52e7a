import JsonPattern.Proofs.Validator.Equations

/-!
# Choices between alternatives

A dispatch chooses among candidates, and what it leaves aside could not have taken the members: an
alternative that takes them without failures is opened by the one name that is present, because a
value without failures fits.

## Main definitions

* `Table.OpensIfTaken` : a view that takes members is opened by its first name that is present.
* `Table.admits` : a view could take the members.
* `Table.dispatchViews` : what is left when one of several views takes members.

## Main results

* `Table.Ranked.fits_of_failures_eq_nil` : a value without failures fits.
* `Table.Ranked.opensIfTaken` : a view that takes members without failures is opened.
* `Table.Ranked.dispatchViews_exclusive` : a dispatch by the number of views that could take the
  members.
-/

namespace JsonPattern

variable {ρ : Type}

namespace Table

variable [DecidableEq ρ] {T : Table ρ} {path : Path} {members : Members} {name : String}
  {value : Json}

/-! ### Values without failures -/

/-- A value without failures fits. -/
theorem Ranked.fits_of_failures_eq_nil {nodes : Set ρ} {rank : ρ → Nat} (h : T.Ranked nodes rank)
    {r : ρ} (hr : r ∈ nodes) (hfailures : T.failures r path value = []) :
    T.fits r value = true := by
  rw [h.failures_eq hr] at hfailures
  rw [h.fits_eq hr]
  cases hcheck : T.check r with
  | kind type =>
    simp only [hcheck] at hfailures
    split at hfailures
    · assumption
    · cases hfailures
  | literal literal =>
    simp only [hcheck] at hfailures
    split at hfailures
    · assumption
    · cases hfailures
  | regex r label =>
    simp only [hcheck] at hfailures
    cases value with
    | string s =>
      simp only at hfailures
      split at hfailures
      · assumption
      · cases hfailures
    | null | bool | integer | float | array | object => cases hfailures
  | arrayOf element =>
    simp only [hcheck] at hfailures
    cases value with
    | array => rfl
    | null | bool | integer | float | string | object => cases hfailures
  | object clauses =>
    simp only [hcheck] at hfailures
    cases value with
    | object => rfl
    | null | bool | integer | float | string | array => cases hfailures
  | oneOf alternatives =>
    simp only [hcheck] at hfailures
    rcases hbranches : T.branches alternatives value with _ | ⟨first, _ | ⟨second, rest⟩⟩
    · rw [hbranches] at hfailures
      cases hfailures
    · simp only [hbranches, List.length_singleton, BEq.rfl]
    · rw [hbranches] at hfailures
      cases first <;> cases hfailures
  | anything => rfl

/-! ### Members without failures -/

/-- If one of several views can be opened by the name of a member, and a dispatch between them meets
no failures, the member opens exactly one of them. -/
theorem countP_opens_eq_one {ι : Type} {xs : List ι} (view : ι → View ρ)
    {take : ι → Members → Outcome} (hlookup : members.lookup name = some value)
    (hname : ∃ x ∈ xs, name ∈ T.firstNames (view x))
    (hfailures : (T.dispatch path (xs.map fun x ↦ ⟨view x, take x⟩) members).failures = []) :
    xs.countP (fun x ↦ T.opens name value (view x)) = 1 := by
  obtain ⟨own, part, winner, hdecides, hfilter⟩ := exists_chosen_of_failures_eq_nil hfailures
  obtain ⟨x, hx, hname⟩ := hname
  have hpresent : name ∈ T.present (view x) members :=
    mem_present.2 ⟨hname, by rw [hlookup]; rfl⟩
  obtain rfl := hdecides.eq_of_mem (view x) (by simpa using ⟨x, hx, rfl⟩) name hpresent
  obtain rfl : value = part := Option.some.inj (hlookup.symm.trans hdecides.lookup_eq)
  have hlength := congrArg List.length hfilter
  rwa [← List.countP_eq_length_filter, List.countP_map] at hlength

/-- A view that takes members without failures is opened by its first name that is present, if there
is only one. -/
def OpensIfTaken (T : Table ρ) (path : Path) (view : View ρ) : Prop :=
  ∀ (members : Members) (name : String) (value : Json), members.lookup name = some value →
    name ∈ T.firstNames view → (∀ other ∈ T.present view members, other = name) →
    (T.takeView T.failures path view members).failures = [] → T.opens name value view = true

namespace Ranked

variable {nodes : Set ρ} {rank : ρ → Nat}

mutual

theorem opens_of_takeClause (h : T.Ranked nodes rank) (hlookup : members.lookup name = some value) :
    (clause : Clause ρ) → (∀ r ∈ clause.refs, r ∈ nodes) →
    (∀ t ∈ clause.flattenTargets, T.OpensIfTaken path (.ref t)) →
    name ∈ clause.firstNames (T.firstNamesWithin T.hops) →
    (∀ other ∈ clause.firstNames (T.firstNamesWithin T.hops), (members.lookup other).isSome →
      other = name) →
    (T.takeClause T.failures (T.takeTargetWithin T.failures path T.hops) path clause
      members).failures = [] →
    clause.opens (T.fits · value) (T.opensWithin name value T.hops) name = true
  | .named own target, hrefs, _, hname, _, hfailures => by
    obtain rfl : name = own := LabelSet.mem_singleton.1 hname
    simp only [takeClause, hlookup] at hfailures
    have hfits := h.fits_of_failures_eq_nil (hrefs target List.mem_cons_self) hfailures
    simp [Clause.opens, hfits]
  | .optional group, hrefs, htarget, hname, hone, hfailures => by
    have hpresent : name ∈ T.present (.group group) members :=
      mem_present.2 ⟨hname, by rw [hlookup]; rfl⟩
    rw [takeClause, LabelSet.isEmpty_eq_false_iff.2 ⟨name, hpresent⟩] at hfailures
    exact opens_of_takeGroup h hlookup group hrefs htarget hname hone hfailures
  | .many _, _, _, hname, _, _ => absurd hname LabelSet.not_mem_empty
  | .flatten t, _, htarget, hname, hone, hfailures =>
    htarget t List.mem_cons_self members name value hlookup hname
      (fun other hother ↦ hone other (mem_present.1 hother).1 (mem_present.1 hother).2) hfailures
  | .oneOf groups, _, _, hname, _, hfailures => by
    rw [takeClause, takeEither_eq_map] at hfailures
    rw [Clause.opens, groupsOpened_eq_countP]
    refine beq_iff_eq.2 (countP_opens_eq_one .group hlookup ?_ hfailures)
    exact mem_groupsFirstNames.1 hname

theorem opens_of_takeGroup (h : T.Ranked nodes rank) (hlookup : members.lookup name = some value) :
    (group : List (Clause ρ)) → (∀ r ∈ groupRefs group, r ∈ nodes) →
    (∀ t ∈ groupFlattenTargets group, T.OpensIfTaken path (.ref t)) →
    name ∈ groupFirstNames (T.firstNamesWithin T.hops) group →
    (∀ other ∈ groupFirstNames (T.firstNamesWithin T.hops) group,
      (members.lookup other).isSome → other = name) →
    (T.takeGroup T.failures (T.takeTargetWithin T.failures path T.hops) path group
      members).failures = [] →
    groupOpens (T.fits · value) (T.opensWithin name value T.hops) name group = true
  | [], _, _, hname, _, _ => absurd hname LabelSet.not_mem_empty
  | clause :: group, hrefs, htarget, hname, hone, hfailures => by
    have hclause := opens_of_takeClause h hlookup clause
      (fun r hr ↦ hrefs r (List.mem_append_left _ hr))
      fun t ht ↦ htarget t (List.mem_append_left _ ht)
    have hgroup := opens_of_takeGroup h hlookup group
      (fun r hr ↦ hrefs r (List.mem_append_right _ hr))
      fun t ht ↦ htarget t (List.mem_append_right _ ht)
    obtain ⟨hfirst, hrest⟩ := List.append_eq_nil_iff.1 hfailures
    rw [groupFirstNames] at hname hone
    rw [groupOpens, Bool.or_eq_true, Bool.and_eq_true]
    by_cases hown : name ∈ clause.firstNames (T.firstNamesWithin T.hops)
    · refine .inl (hclause hown (fun other hother ↦ hone other ?_) hfirst)
      split
      · exact LabelSet.mem_union.2 (.inl hother)
      · exact hother
    -- A name that does not open the first clause opens what comes after an optional group that is
    -- passed over, so it is met with all members.
    · split at hname
      · next hoptional =>
        rw [if_pos hoptional] at hone
        refine .inr ⟨hoptional, hgroup ((LabelSet.mem_union.1 hname).resolve_left hown)
          (fun other hother ↦ hone other (LabelSet.mem_union.2 (.inr hother))) ?_⟩
        cases clause with
        | optional inner =>
          have hempty : (T.present (.group inner) members).isEmpty = true := by
            refine LabelSet.isEmpty_iff.2 fun other hother ↦ hown ?_
            obtain ⟨hmem, hsome⟩ := mem_present.1 hother
            exact hone other (LabelSet.mem_union.2 (.inl hmem)) hsome ▸ hmem
          rwa [takeClause, if_pos hempty] at hrest
        | named | many | flatten | oneOf => cases hoptional
      · exact absurd hname hown

end

theorem opensIfTaken_group (h : T.Ranked nodes rank) {clauses : List (Clause ρ)}
    (hrefs : ∀ r ∈ groupRefs clauses, r ∈ nodes)
    (htarget : ∀ t ∈ groupFlattenTargets clauses, T.OpensIfTaken path (.ref t)) :
    T.OpensIfTaken path (.group clauses) :=
  fun _ _ _ hlookup hname hone hfailures ↦
    h.opens_of_takeGroup hlookup clauses hrefs htarget hname
      (fun other hother hsome ↦ hone other (mem_present.2 ⟨hother, hsome⟩)) hfailures

theorem opensIfTaken_ref (h : T.Ranked nodes rank) {r : ρ} (hr : r ∈ nodes) :
    T.OpensIfTaken path (.ref r) := by
  induction hn : rank r using Nat.strong_induction_on generalizing r with
  | h n ih =>
    subst hn
    intro members name value hlookup hname hone hfailures
    have hpresent : T.present (.ref r) members = (T.firstNames (.ref r)).filter
      fun name ↦ (members.lookup name).isSome := rfl
    rw [hpresent, h.firstNames_ref_eq hr] at hone
    rw [h.firstNames_ref_eq hr] at hname
    rw [h.takeView_ref_eq hr] at hfailures
    rw [h.opens_ref_eq hr]
    cases hcheck : T.check r with
    | object clauses =>
      rw [hcheck] at hname hone hfailures
      refine h.opensIfTaken_group (h.mem_of_object hr hcheck) (fun t ht ↦ ?_) members name value
        hlookup hname hone hfailures
      have ht := h.target_of_object hr hcheck t ht
      exact ih (rank t) ht.2 ht.1 rfl
    | oneOf alternatives =>
      rw [hcheck] at hname hfailures
      refine beq_iff_eq.2 (countP_opens_eq_one .ref hlookup ?_ hfailures)
      obtain ⟨names, hmem, hname⟩ := LabelSet.mem_unions.1 hname
      obtain ⟨a, ha, rfl⟩ := List.mem_map.1 hmem
      exact ⟨a, ha, hname⟩
    | kind | literal | regex | arrayOf | anything =>
      rw [hcheck] at hname
      exact absurd hname LabelSet.not_mem_empty

/-- A view that takes members without failures is opened by its one first name that is present. -/
theorem opensIfTaken (h : T.Ranked nodes rank) {view : View ρ}
    (hview : ∀ r ∈ view.refs, r ∈ nodes) :
    T.OpensIfTaken path view := by
  cases view with
  | group clauses =>
    exact h.opensIfTaken_group hview fun t ht ↦
      h.opensIfTaken_ref (hview t (groupFlattenTargets_subset clauses ht))
  | ref target => exact h.opensIfTaken_ref (hview target List.mem_cons_self)

end Ranked

/-! ### Alternatives that could take the members -/

/-- A view could take the members: one of its first names is present, and taking them meets no
failures. -/
def admits (T : Table ρ) (path : Path) (members : Members) (view : View ρ) : Bool :=
  !(T.present view members).isEmpty &&
    (T.takeView T.failures path view members).failures.isEmpty

/-- Views as alternatives, each with a way to take members. -/
def alternativesOf (take : View ρ → Members → Outcome) (views : List (View ρ)) :
    List (Alternative ρ) :=
  views.map fun view ↦ ⟨view, take view⟩

/-- What is left when one of several views takes members. -/
def dispatchViews (T : Table ρ) (path : Path) (views : List (View ρ)) (members : Members) :
    Outcome :=
  T.dispatch path (alternativesOf (T.takeView T.failures path) views) members

omit [DecidableEq ρ] in
@[simp]
theorem map_view_alternativesOf (take : View ρ → Members → Outcome) (views : List (View ρ)) :
    (alternativesOf take views).map Alternative.view = views := by
  rw [alternativesOf, List.map_map]
  exact List.map_id views

omit [DecidableEq ρ] in
theorem filter_alternativesOf (take : View ρ → Members → Outcome) (views : List (View ρ))
    (p : View ρ → Bool) : (alternativesOf take views).filter (fun a ↦ p a.view) =
      alternativesOf take (views.filter p) := by
  rw [alternativesOf, List.filter_map]
  rfl

omit [DecidableEq ρ] in
theorem present_alternativesOf (take : View ρ → Members → Outcome) (views : List (View ρ)) :
    (alternativesOf take views).map (fun a ↦ T.present a.view members) =
      views.map fun view ↦ T.present view members := by
  rw [alternativesOf, List.map_map]
  rfl

omit [DecidableEq ρ] in
theorem openingLabels_alternativesOf (take take' : View ρ → Members → Outcome)
    (views : List (View ρ)) :
    T.openingLabels (alternativesOf take views) = T.openingLabels (alternativesOf take' views) := by
  simp only [openingLabels, alternativesOf, List.map_map, Function.comp_def]

omit [DecidableEq ρ] in
theorem valueLabels_alternativesOf (take take' : View ρ → Members → Outcome)
    (views : List (View ρ)) : T.valueLabels name (alternativesOf take views) =
      T.valueLabels name (alternativesOf take' views) := by
  simp only [valueLabels, alternativesOf, List.map_map, Function.comp_def]

theorem present_of_admits {view : View ρ} (h : T.admits path members view = true) :
    ∃ name, name ∈ T.present view members := by
  have hempty := (Bool.and_eq_true_iff.1 h).1
  rw [Bool.not_eq_true'] at hempty
  exact LabelSet.isEmpty_eq_false_iff.1 hempty

theorem failures_of_admits {view : View ρ} (h : T.admits path members view = true) :
    (T.takeView T.failures path view members).failures = [] :=
  List.isEmpty_iff.1 (Bool.and_eq_true_iff.1 h).2

variable {nodes : Set ρ} {rank : ρ → Nat} {views : List (View ρ)}

/-- A view that could take the members is opened by the one name that is present. -/
theorem Ranked.opens_of_admits (h : T.Ranked nodes rank)
    (hviews : ∀ view ∈ views, ∀ r ∈ view.refs, r ∈ nodes)
    (hdecides : T.Decides views members name value) {view : View ρ} (hview : view ∈ views)
    (hadmits : T.admits path members view = true) : T.opens name value view = true := by
  obtain ⟨own, hown⟩ := present_of_admits hadmits
  have hone := hdecides.eq_of_mem view hview
  have hname : name ∈ T.firstNames view := hone own hown ▸ (Table.mem_present.1 hown).1
  exact h.opensIfTaken (hviews view hview) members name value hdecides.lookup_eq hname hone
    (failures_of_admits hadmits)

/-- A view that the deciding value opens could take the members if taking them meets no failures. -/
theorem Decides.admits_eq (hdecides : T.Decides views members name value) {view : View ρ}
    (hopens : T.opens name value view = true) : T.admits path members view =
      (T.takeView T.failures path view members).failures.isEmpty := by
  have hpresent : name ∈ T.present view members :=
    Table.mem_present.2 ⟨mem_firstNames_of_opens hopens, by rw [hdecides.lookup_eq]; rfl⟩
  rw [admits, LabelSet.isEmpty_eq_false_iff.2 ⟨name, hpresent⟩]
  rfl

/-- Where one name decides and its value opens one view only, no other view could take the
members. -/
theorem Ranked.filter_admits_eq (h : T.Ranked nodes rank)
    (hviews : ∀ view ∈ views, ∀ r ∈ view.refs, r ∈ nodes)
    (hdecides : T.Decides views members name value) {winner : View ρ}
    (hwinner : views.filter (T.opens name value) = [winner]) :
    views.filter (T.admits path members) =
      if (T.takeView T.failures path winner members).failures.isEmpty then [winner] else [] := by
  have hopens : T.opens name value winner = true :=
    (List.mem_filter.1 (hwinner ▸ List.mem_cons_self)).2
  have hboth : views.filter (T.admits path members) = [winner].filter (T.admits path members) := by
    rw [← hwinner, List.filter_filter]
    refine List.filter_congr ?_
    intro view hview
    cases hadmits : T.admits path members view with
    | false => rfl
    | true => rw [h.opens_of_admits hviews hdecides hview hadmits, Bool.and_true]
  rw [hboth, List.filter_cons, hdecides.admits_eq hopens]
  rfl

/-- Where one name decides and its value opens one view only, that view takes the members, however
members are taken. -/
theorem Decides.dispatch_alternativesOf (hdecides : T.Decides views members name value)
    {winner : View ρ} (hwinner : views.filter (T.opens name value) = [winner])
    (take : View ρ → Members → Outcome) :
    T.dispatch path (alternativesOf take views) members = take winner members := by
  have hdecides' :
      T.Decides ((alternativesOf take views).map Alternative.view) members name value := by
    rwa [map_view_alternativesOf]
  rw [hdecides'.dispatch_eq, dispatchByValue, filter_opens_candidates hdecides.lookup_eq,
    filter_alternativesOf take views (T.opens name value), hwinner]
  rfl

/-- Either one view is opened by the one name that decides, or it does not matter how views take
members. -/
theorem dispatch_eq_or_decides (path : Path) (views : List (View ρ)) (members : Members) :
    (∀ take take' : View ρ → Members → Outcome,
      T.dispatch path (alternativesOf take views) members =
        T.dispatch path (alternativesOf take' views) members) ∨
      ∃ name value winner, T.Decides views members name value ∧
        views.filter (T.opens name value) = [winner] := by
  have hcandidates (take : View ρ → Members → Outcome) :=
    filter_alternativesOf take views fun view ↦ !(T.present view members).isEmpty
  rcases hnames : (LabelSet.unions (views.map fun view ↦ T.present view members)).toList with
    _ | ⟨name, _ | ⟨second, rest⟩⟩
  · refine .inl ?_
    intro take take'
    simp only [dispatch, present_alternativesOf, hnames, openingLabels_alternativesOf take take']
  · obtain ⟨value, hdecides⟩ := exists_decides hnames
    have hchoice (take : View ρ → Members → Outcome) :
        T.dispatch path (alternativesOf take views) members = T.dispatchByValue path
          ((alternativesOf take views).filter fun a ↦ !(T.present a.view members).isEmpty)
            members name value :=
      Decides.dispatch_eq (by rwa [map_view_alternativesOf])
    simp only [hchoice, dispatchByValue, filter_opens_candidates hdecides.lookup_eq,
      filter_alternativesOf _ views (T.opens name value)]
    rcases hfilter : views.filter (T.opens name value) with _ | ⟨winner, _ | ⟨second, rest⟩⟩
    · refine .inl ?_
      intro take take'
      simp only [hcandidates, valueLabels_alternativesOf take take']
      rfl
    · exact .inr ⟨name, value, winner, hdecides, hfilter⟩
    · exact .inl fun take take' ↦ congrArg
        (fun labels ↦ Outcome.mk (members.without name)
          [.ambiguous (path.member name) value.shallowText labels])
        (valueLabels_alternativesOf take take' (winner :: second :: rest))
  · refine .inl ?_
    intro take take'
    simp only [dispatch, present_alternativesOf, hnames, hcandidates,
      openingLabels_alternativesOf take take']

/-- What a dispatch comes to, by the number of views that could take the members. -/
theorem Ranked.dispatchViews_exclusive (h : T.Ranked nodes rank)
    (hviews : ∀ view ∈ views, ∀ r ∈ view.refs, r ∈ nodes) :
    (views.countP (T.admits path members) = 0 →
      (T.dispatchViews path views members).failures ≠ []) ∧
    (2 ≤ views.countP (T.admits path members) →
      ∃ failure, (T.dispatchViews path views members).failures = [failure] ∧
        failure.isAmbiguity = true) ∧
    (views.countP (T.admits path members) = 1 →
      (∃ failure, (T.dispatchViews path views members).failures = [failure] ∧
        failure.isAmbiguity = true) ∨
      ∃ view, views.filter (T.admits path members) = [view] ∧
        (T.dispatchViews path views members).failures = [] ∧
        ∀ take : View ρ → Members → Outcome,
          T.dispatch path (alternativesOf take views) members = take view members) ∧
    ((T.dispatchViews path views members).failures = [] →
      views.countP (T.admits path members) = 1) := by
  have hdispatched := T.dispatched path (alternativesOf (T.takeView T.failures path) views) members
  rw [← dispatchViews] at hdispatched
  generalize T.dispatchViews path views members = outcome at hdispatched ⊢
  have hambiguous {found : String} {path : Path} {overlapping : LabelSet} : ∃ failure,
      [Failure.ambiguous path found overlapping] = [failure] ∧ failure.isAmbiguity = true :=
    ⟨_, rfl, rfl⟩
  cases hdispatched with
  | closed expected hclosed =>
    have hzero : views.countP (T.admits path members) = 0 := by
      refine List.countP_eq_zero.2 ?_
      intro view hview hadmits
      obtain ⟨name, hname⟩ := present_of_admits hadmits
      exact hclosed _ (List.mem_map_of_mem hview) name hname
    rw [hzero]
    exact ⟨fun _ ↦ List.cons_ne_nil _ _, by simp, by simp, by simp⟩
  | torn names overlapping hne hfirst hsecond =>
    exact ⟨fun _ ↦ List.cons_ne_nil _ _, fun _ ↦ hambiguous, fun _ ↦ .inl hambiguous, by simp⟩
  | claimed overlapping hdecides hfilter =>
    exact ⟨fun _ ↦ List.cons_ne_nil _ _, fun _ ↦ hambiguous, fun _ ↦ .inl hambiguous, by simp⟩
  | @unmatched expected name value hdecides hfilter =>
    rw [map_view_alternativesOf] at hdecides
    rw [filter_alternativesOf _ views (T.opens name value), alternativesOf, List.map_eq_nil_iff,
      List.filter_eq_nil_iff] at hfilter
    have hzero : views.countP (T.admits path members) = 0 :=
      List.countP_eq_zero.2 fun view hview hadmits ↦
        hfilter view hview (h.opens_of_admits hviews hdecides hview hadmits)
    rw [hzero]
    exact ⟨fun _ ↦ List.cons_ne_nil _ _, by simp, by simp, by simp⟩
  | @chosen name value winner hdecides hfilter =>
    rw [map_view_alternativesOf] at hdecides
    rw [filter_alternativesOf _ views (T.opens name value)] at hfilter
    obtain ⟨view, hview, rfl⟩ := List.map_eq_singleton_iff.1 hfilter
    have hadmit : views.filter (T.admits path members) =
        if (T.takeView T.failures path view members).failures.isEmpty then [view] else [] :=
      h.filter_admits_eq hviews hdecides hview
    simp only [List.countP_eq_length_filter, hadmit]
    by_cases hfailures : (T.takeView T.failures path view members).failures.isEmpty
    · rw [if_pos hfailures]
      exact ⟨by simp, by simp, fun _ ↦ .inr ⟨view, rfl, List.isEmpty_iff.1 hfailures,
        hdecides.dispatch_alternativesOf hview⟩, fun _ ↦ rfl⟩
    · rw [if_neg hfailures]
      have hne : (T.takeView T.failures path view members).failures ≠ [] :=
        fun hnil ↦ hfailures (List.isEmpty_iff.2 hnil)
      exact ⟨fun _ ↦ hne, by simp, by simp, fun hnil ↦ absurd hnil hne⟩

/-- If one view could take the members and the choice fails nevertheless, the failure does not come
from taking members. -/
theorem Ranked.dispatch_failures_eq (h : T.Ranked nodes rank)
    (hviews : ∀ view ∈ views, ∀ r ∈ view.refs, r ∈ nodes)
    (hone : views.countP (T.admits path members) = 1) {failure : Failure}
    (hfailures : (T.dispatchViews path views members).failures = [failure])
    (take : View ρ → Members → Outcome) :
    (T.dispatch path (alternativesOf take views) members).failures = [failure] := by
  rcases T.dispatch_eq_or_decides path views members with
    hfixed | ⟨name, value, winner, hdecides, hwinner⟩
  · rw [hfixed take (T.takeView T.failures path)]
    exact hfailures
  · rw [dispatchViews, hdecides.dispatch_alternativesOf hwinner] at hfailures
    rw [List.countP_eq_length_filter, h.filter_admits_eq hviews hdecides hwinner, hfailures] at hone
    cases hone

end Table

end JsonPattern
