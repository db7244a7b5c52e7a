import JsonPattern.Proofs.Validator.Opening
import JsonPattern.Validator.Dispatch
import Mathlib.Data.List.Forall2

/-!
# What a dispatch comes to

What a dispatch leaves is what its alternatives may leave, and alternatives that are opened alike
and take the members alike make the same dispatch, whichever tables they are seen through. A
dispatch chooses by names and by a shallow look at one value, without trying the alternatives;
`Table.Dispatched` lists what it can come to.

## Main definitions

* `Table.OpensAlike`, `Table.SameOpenings` : views that are opened alike, each through a table of
  its own.
* `Table.ActsAlike` : alternatives that are opened alike and take the same members.
* `Table.Decides` : one name alone is present.
* `Table.Dispatched` : what a dispatch can come to.

## Main results

* `Table.dispatch_congr` : alternatives that act alike make the same dispatch.
* `Table.dispatched` : a dispatch comes to what is listed.
* `Table.exists_chosen_of_failures_eq_nil` : a dispatch without failures has chosen an alternative.
-/

namespace JsonPattern

variable {ρ σ ι : Type} {f : ρ → σ}

theorem Members.without_sublist (members : Members) (name : String) :
    (members.without name).Sublist members :=
  List.filter_sublist

namespace Table

section Rest

variable [DecidableEq ρ] {T : Table ρ} {path : Path} {members : Members}

theorem dispatchByValue_rest_sublist {candidates : List (Alternative ρ)} {name : String}
    {value : Json} (h : ∀ a ∈ candidates, (a.take members).rest.Sublist members) :
    (T.dispatchByValue path candidates members name value).rest.Sublist members := by
  unfold dispatchByValue
  split
  · exact members.without_sublist name
  · next winner hwinner =>
    have hmem : winner ∈ candidates.filter fun a ↦ T.opens name value a.view := by
      rw [hwinner]
      exact List.mem_cons_self
    exact h winner (List.mem_filter.1 hmem).1
  · exact members.without_sublist name

/-- A dispatch leaves members in their order. -/
theorem dispatch_rest_sublist {alternatives : List (Alternative ρ)}
    (h : ∀ a ∈ alternatives, (a.take members).rest.Sublist members) :
    (T.dispatch path alternatives members).rest.Sublist members := by
  unfold dispatch
  split
  · exact .refl members
  · split
    · exact dispatchByValue_rest_sublist fun a ha ↦ h a (List.mem_filter.1 ha).1
    · exact .refl members
  · exact .refl members

end Rest

/-! ### Alternatives that act alike -/

section Alike

variable [DecidableEq ρ] [DecidableEq σ] {T : Table ρ} {U : Table σ}

/-- Two views, each through a table of its own, are opened alike: by the same names and values, and
the checks that may apply to the member that opens them have the same labels. -/
structure OpensAlike (T : Table ρ) (view : View ρ) (U : Table σ) (view' : View σ) : Prop where
  /-- The same names may open them. -/
  firstNames_eq : U.firstNames view' = T.firstNames view
  /-- The values under these names are called the same. -/
  labelsOf_eq : ∀ name, U.labelsOf (U.firstChecks name view') = T.labelsOf (T.firstChecks name view)
  /-- The same members open them. -/
  opens_eq : ∀ name value, U.opens name value view' = T.opens name value view

theorem OpensAlike.present_eq {view : View ρ} {view' : View σ} (h : T.OpensAlike view U view')
    (members : Members) : U.present view' members = T.present view members := by
  rw [present, present, h.firstNames_eq]

/-- Two views, each through a table of its own, are opened by the same names, to the same checks and
by the same values. -/
structure SameOpenings (T : Table ρ) (view : View ρ) (U : Table ρ) (view' : View ρ) : Prop where
  /-- The same names may open them. -/
  firstNames_eq : U.firstNames view' = T.firstNames view
  /-- The same checks may apply to the values under these names. -/
  firstChecks_eq : ∀ name, U.firstChecks name view' = T.firstChecks name view
  /-- The same members open them. -/
  opens_eq : ∀ name value, U.opens name value view' = T.opens name value view

namespace SameOpenings

variable {T U W : Table ρ} {view view' view'' : View ρ}

protected theorem refl (view : View ρ) : T.SameOpenings view T view :=
  ⟨rfl, fun _ ↦ rfl, fun _ _ ↦ rfl⟩

theorem trans (h : T.SameOpenings view U view') (h' : U.SameOpenings view' W view'') :
    T.SameOpenings view W view'' :=
  ⟨h'.firstNames_eq.trans h.firstNames_eq,
    fun name ↦ (h'.firstChecks_eq name).trans (h.firstChecks_eq name),
    fun name value ↦ (h'.opens_eq name value).trans (h.opens_eq name value)⟩

theorem symm (h : T.SameOpenings view U view') : U.SameOpenings view' T view :=
  ⟨h.firstNames_eq.symm, fun name ↦ (h.firstChecks_eq name).symm,
    fun name value ↦ (h.opens_eq name value).symm⟩

/-- Through tables that name checks alike, such views are opened alike. -/
theorem opensAlike (h : T.SameOpenings view U view') (hlabels : ∀ r, U.labels r = T.labels r) :
    T.OpensAlike view U view' where
  firstNames_eq := h.firstNames_eq
  labelsOf_eq name := by rw [h.firstChecks_eq, labelsOf, labelsOf, funext hlabels]
  opens_eq := h.opens_eq

end SameOpenings

/-- Two alternatives act alike on some members: they are opened alike, and take these members in
the same way. -/
structure ActsAlike (T : Table ρ) (U : Table σ) (members : Members) (a : Alternative ρ)
    (a' : Alternative σ) : Prop where
  /-- They are opened alike. -/
  opensAlike : T.OpensAlike a.view U a'.view
  /-- They take the members in the same way. -/
  take_eq : a'.take members = a.take members

variable {path : Path} {members : Members} {alternatives candidates : List (Alternative ρ)}
  {alternatives' candidates' : List (Alternative σ)}

theorem unions_congr {names : Alternative ρ → LabelSet} {names' : Alternative σ → LabelSet}
    (h : List.Forall₂ (T.ActsAlike U members) alternatives alternatives')
    (hnames : ∀ a a', T.ActsAlike U members a a' → names' a' = names a) :
    LabelSet.unions (alternatives'.map names') = LabelSet.unions (alternatives.map names) := by
  induction h with
  | nil => rfl
  | cons ha _ ih =>
    rw [List.map_cons, List.map_cons, LabelSet.unions_cons, LabelSet.unions_cons, hnames _ _ ha, ih]

theorem dispatchByValue_congr {name : String} {value : Json}
    (h : List.Forall₂ (T.ActsAlike U members) candidates candidates') :
    U.dispatchByValue path candidates' members name value =
      T.dispatchByValue path candidates members name value := by
  have hlabels {as : List (Alternative ρ)} {as' : List (Alternative σ)}
      (h : List.Forall₂ (T.ActsAlike U members) as as') :
      U.valueLabels name as' = T.valueLabels name as :=
    unions_congr h fun _ _ ha ↦ ha.opensAlike.labelsOf_eq name
  have hmatching : List.Forall₂ (T.ActsAlike U members)
      (candidates.filter fun a ↦ T.opens name value a.view)
      (candidates'.filter fun a ↦ U.opens name value a.view) :=
    List.rel_filter (fun _ _ ha ↦ by simp only [ha.opensAlike.opens_eq]) h
  unfold dispatchByValue
  rw [hlabels h]
  revert hmatching
  generalize candidates.filter (fun a ↦ T.opens name value a.view) = matching
  generalize candidates'.filter (fun a ↦ U.opens name value a.view) = matching'
  intro hmatching
  cases hmatching with
  | nil => rfl
  | cons hwinner hrest =>
    cases hrest with
    | nil => exact hwinner.take_eq
    | cons hsecond hrest => simp only [hlabels (.cons hwinner (.cons hsecond hrest))]

/-- A dispatch between alternatives that act alike comes to the same. -/
theorem dispatch_congr (h : List.Forall₂ (T.ActsAlike U members) alternatives alternatives') :
    U.dispatch path alternatives' members = T.dispatch path alternatives members := by
  have hopening {as : List (Alternative ρ)} {as' : List (Alternative σ)}
      (h : List.Forall₂ (T.ActsAlike U members) as as') :
      U.openingLabels as' = T.openingLabels as :=
    unions_congr h fun _ _ ha ↦ by rw [ha.opensAlike.firstNames_eq]
  have hnames : LabelSet.unions (alternatives'.map fun a ↦ U.present a.view members) =
      LabelSet.unions (alternatives.map fun a ↦ T.present a.view members) :=
    unions_congr h fun _ _ ha ↦ ha.opensAlike.present_eq members
  have hcandidates : List.Forall₂ (T.ActsAlike U members)
      (alternatives.filter fun a ↦ !(T.present a.view members).isEmpty)
      (alternatives'.filter fun a ↦ !(U.present a.view members).isEmpty) :=
    List.rel_filter (fun _ _ ha ↦ by simp only [ha.opensAlike.present_eq]) h
  unfold dispatch
  simp only [hnames, hopening h, hopening hcandidates, dispatchByValue_congr hcandidates]

theorem dispatch_map_congr {xs : List ι} {a : ι → Alternative ρ} {a' : ι → Alternative σ}
    (h : ∀ x ∈ xs, T.ActsAlike U members (a x) (a' x)) :
    U.dispatch path (xs.map a') members = T.dispatch path (xs.map a) members :=
  dispatch_congr (List.forall₂_map_left_iff.2 (List.forall₂_map_right_iff.2
    (List.forall₂_same.2 h)))

/-- A view is opened alike through a covering. -/
theorem Covers.opensAlike {nodes : Set ρ} {rank : ρ → Nat} (h : T.Covers U f nodes rank)
    (view : View ρ) (hview : ∀ r ∈ view.refs, r ∈ nodes) : T.OpensAlike view U (view.map f) where
  firstNames_eq := h.firstNames_eq view hview
  labelsOf_eq name := by
    rw [h.firstChecks_eq view hview]
    exact h.labelsOf_eq (h.mem_firstChecks hview)
  opens_eq _ _ := h.opens_eq view hview

theorem Covers.opensAlike_innerGroups {nodes : Set ρ} {rank : ρ → Nat}
    (h : T.Covers U f nodes rank) {clauses : List (Clause ρ)}
    (hclauses : ∀ r ∈ groupRefs clauses, r ∈ nodes) :
    ∀ group ∈ groupInnerGroups clauses,
      T.OpensAlike (.group group) U (.group (groupMap f group)) := fun group hgroup ↦
  h.opensAlike (.group group) fun r hr ↦
    hclauses r ((subset_of_mem_groupInnerGroups clauses group hgroup).1 hr)

end Alike

/-! ### What a dispatch can come to -/

variable [DecidableEq ρ] {T : Table ρ}

/-- One name alone is present among those that may open one of several views. -/
structure Decides (T : Table ρ) (views : List (View ρ)) (members : Members) (name : String)
    (value : Json) : Prop where
  /-- A value stands under the name. -/
  lookup_eq : members.lookup name = some value
  /-- The name may open a view. -/
  mem_present : ∃ view ∈ views, name ∈ T.present view members
  /-- No other name that is present may. -/
  eq_of_mem : ∀ view ∈ views, ∀ other ∈ T.present view members, other = name

/-- What a dispatch can come to: no name decides or several do, or one name decides and its value
opens no alternative, one of them, or several. -/
inductive Dispatched (T : Table ρ) (path : Path) (alternatives : List (Alternative ρ))
    (members : Members) : Outcome → Prop
  | closed (expected : LabelSet)
      (h : ∀ a ∈ alternatives, ∀ name, name ∉ T.present a.view members) :
      Dispatched T path alternatives members
        ⟨members, [.unexpectedOf path (namesText members.names) expected]⟩
  | torn (names : List String) (overlapping : LabelSet) {first second : String}
      (hne : first ≠ second) (hfirst : ∃ a ∈ alternatives, first ∈ T.present a.view members)
      (hsecond : ∃ a ∈ alternatives, second ∈ T.present a.view members) :
      Dispatched T path alternatives members
        ⟨members, [.ambiguous path (namesText names) overlapping]⟩
  | unmatched (expected : LabelSet) {name : String} {value : Json}
      (hname : T.Decides (alternatives.map Alternative.view) members name value)
      (h : alternatives.filter (fun a ↦ T.opens name value a.view) = []) :
      Dispatched T path alternatives members
        ⟨members.without name, [.unexpectedOf (path.member name) value.shallowText expected]⟩
  | chosen {name : String} {value : Json} {winner : Alternative ρ}
      (hname : T.Decides (alternatives.map Alternative.view) members name value)
      (h : alternatives.filter (fun a ↦ T.opens name value a.view) = [winner]) :
      Dispatched T path alternatives members (winner.take members)
  | claimed (overlapping : LabelSet) {name : String} {value : Json}
      {first second : Alternative ρ} {rest : List (Alternative ρ)}
      (hname : T.Decides (alternatives.map Alternative.view) members name value)
      (h : alternatives.filter (fun a ↦ T.opens name value a.view) = first :: second :: rest) :
      Dispatched T path alternatives members
        ⟨members.without name, [.ambiguous (path.member name) value.shallowText overlapping]⟩

variable {path : Path} {alternatives : List (Alternative ρ)} {members : Members} {name : String}
  {value : Json}

omit [DecidableEq ρ] in
theorem mem_unions_present {name : String} :
    name ∈ (LabelSet.unions (alternatives.map fun a ↦ T.present a.view members)).toList ↔
      ∃ a ∈ alternatives, name ∈ T.present a.view members := by
  rw [LabelSet.mem_toList, LabelSet.mem_unions]
  simp

omit [DecidableEq ρ] in
/-- If one name alone is present, it decides. -/
theorem exists_decides {views : List (View ρ)}
    (hnames : (LabelSet.unions (views.map fun view ↦ T.present view members)).toList = [name]) :
    ∃ value, T.Decides views members name value := by
  have hmem (other : String) : (∃ view ∈ views, other ∈ T.present view members) ↔ other = name := by
    rw [← List.mem_singleton, ← hnames, LabelSet.mem_toList, LabelSet.mem_unions]
    simp
  obtain ⟨view, hview, hname⟩ := (hmem name).2 rfl
  obtain ⟨value, hlookup⟩ := Option.isSome_iff_exists.1 (mem_present.1 hname).2
  exact ⟨value, hlookup, ⟨view, hview, hname⟩,
    fun view hview other hother ↦ (hmem other).1 ⟨view, hview, hother⟩⟩

/-- An alternative that a value opens is one of the candidates. -/
theorem filter_opens_candidates (h : members.lookup name = some value) :
    (alternatives.filter fun a ↦ !(T.present a.view members).isEmpty).filter
      (fun a ↦ T.opens name value a.view) =
      alternatives.filter fun a ↦ T.opens name value a.view := by
  rw [List.filter_filter]
  refine List.filter_congr ?_
  intro a _
  cases hopens : T.opens name value a.view with
  | false => rfl
  | true =>
    have hpresent : name ∈ T.present a.view members :=
      mem_present.2 ⟨mem_firstNames_of_opens hopens, by rw [h]; rfl⟩
    rw [LabelSet.isEmpty_eq_false_iff.2 ⟨name, hpresent⟩]
    rfl

/-- Where one name decides, its value chooses. -/
theorem Decides.dispatch_eq (h : T.Decides (alternatives.map Alternative.view) members name value) :
    T.dispatch path alternatives members = T.dispatchByValue path
      (alternatives.filter fun a ↦ !(T.present a.view members).isEmpty) members name value := by
  have heq : ∀ other ∈
      (LabelSet.unions (alternatives.map fun a ↦ T.present a.view members)).toList,
      other = name := fun other hother ↦ by
    obtain ⟨a, ha, hother⟩ := mem_unions_present.1 hother
    exact h.eq_of_mem _ (List.mem_map_of_mem ha) other hother
  have hmem : name ∈
      (LabelSet.unions (alternatives.map fun a ↦ T.present a.view members)).toList := by
    obtain ⟨view, hview, hname⟩ := h.mem_present
    obtain ⟨a, ha, rfl⟩ := List.mem_map.1 hview
    exact mem_unions_present.2 ⟨a, ha, hname⟩
  have hnodup := (LabelSet.unions (alternatives.map fun a ↦ T.present a.view members)).nodup
  unfold dispatch
  rcases hnames : (LabelSet.unions
    (alternatives.map fun a ↦ T.present a.view members)).toList with _ | ⟨first, _ | ⟨second, rest⟩⟩
  · rw [hnames] at hmem
    exact absurd hmem List.not_mem_nil
  · rw [hnames] at heq
    obtain rfl := heq first List.mem_cons_self
    simp only [hnames, h.lookup_eq]
  · rw [hnames] at heq hnodup
    have hsecond := heq second (List.mem_cons_of_mem _ List.mem_cons_self)
    rw [heq first List.mem_cons_self, ← hsecond] at hnodup
    exact absurd List.mem_cons_self (List.nodup_cons.1 hnodup).1

theorem dispatched (path : Path) (alternatives : List (Alternative ρ)) (members : Members) :
    Dispatched T path alternatives members (T.dispatch path alternatives members) := by
  have hmem (name : String) (hname : name ∈
      (LabelSet.unions (alternatives.map fun a ↦ T.present a.view members)).toList) :
      ∃ a ∈ alternatives, name ∈ T.present a.view members := mem_unions_present.1 hname
  have hnodup := (LabelSet.unions (alternatives.map fun a ↦ T.present a.view members)).nodup
  rcases hnames : (LabelSet.unions
    (alternatives.map fun a ↦ T.present a.view members)).toList with _ | ⟨name, _ | ⟨second, rest⟩⟩
  · unfold dispatch
    simp only [hnames]
    refine .closed _ ?_
    intro a ha name hname
    have hname := mem_unions_present.2 ⟨a, ha, hname⟩
    rw [hnames] at hname
    exact List.not_mem_nil hname
  · obtain ⟨value, hdecides⟩ :
        ∃ value, T.Decides (alternatives.map Alternative.view) members name value :=
      exists_decides (by rwa [List.map_map])
    rw [hdecides.dispatch_eq, dispatchByValue, filter_opens_candidates hdecides.lookup_eq]
    rcases hfilter : alternatives.filter fun a ↦ T.opens name value a.view with
      _ | ⟨winner, _ | ⟨other, others⟩⟩
    · simp only [hfilter]
      exact .unmatched _ hdecides hfilter
    · simp only [hfilter]
      exact .chosen hdecides hfilter
    · simp only [hfilter]
      exact .claimed _ hdecides hfilter
  · unfold dispatch
    simp only [hnames]
    rw [hnames] at hmem hnodup
    have hne : name ≠ second := fun he ↦
      (List.nodup_cons.1 hnodup).1 (he ▸ List.mem_cons_self)
    exact .torn _ _ hne (hmem name List.mem_cons_self)
      (hmem second (List.mem_cons_of_mem _ List.mem_cons_self))

/-- A dispatch without failures leaves what one of its alternatives leaves. -/
theorem exists_take_of_failures_eq_nil (h : (T.dispatch path alternatives members).failures = []) :
    ∃ a ∈ alternatives, T.dispatch path alternatives members = a.take members := by
  have hdispatched := T.dispatched path alternatives members
  generalize T.dispatch path alternatives members = outcome at h hdispatched ⊢
  cases hdispatched with
  | chosen hname hfilter => exact ⟨_, List.mem_of_mem_filter (hfilter ▸ List.mem_cons_self), rfl⟩
  | closed | torn | unmatched | claimed => cases h

/-- A dispatch without failures has chosen an alternative. -/
theorem exists_chosen_of_failures_eq_nil
    (h : (T.dispatch path alternatives members).failures = []) :
    ∃ name value winner, T.Decides (alternatives.map Alternative.view) members name value ∧
      alternatives.filter (fun a ↦ T.opens name value a.view) = [winner] := by
  have hdispatched := T.dispatched path alternatives members
  generalize T.dispatch path alternatives members = outcome at h hdispatched
  cases hdispatched with
  | chosen hname hfilter => exact ⟨_, _, _, hname, hfilter⟩
  | closed | torn | unmatched | claimed => cases h

end Table

end JsonPattern
