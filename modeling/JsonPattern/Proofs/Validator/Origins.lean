import JsonPattern.Proofs.Validator.Calls
import JsonPattern.Proofs.Validator.Disjunction
import JsonPattern.Proofs.Validator.Interchange
import Mathlib.Data.List.Induction

/-!
# Where failures come from

A call that looks for failures does little of its own: it hands parts of the value, or members that
are left, to other calls, and what it reports itself is a failure or two. `Table.Delegates` relates
a call to those whose failures become its own, with the members that are left at that time, and
`Table.Raises` relates it to the failures that it reports itself, one constructor for each place
where that is done.

The failures of a call are those that are raised by the calls that it leads to
(`Table.Ranked.mem_failuresOf_iff_raised`). So what holds of all failures of a value is proved of
those raised by one call, for calls of which something is known that delegation preserves.

## Main definitions

* `Table.DispatchedViews` : what a choice between views comes to.
* `Table.Delegates` : a call whose failures become those of another one.
* `Table.Raises` : a call reports a failure itself.
* `Table.Traces` : a failure is traced back one step.

## Main results

* `Table.dispatchedViews` : a choice between views comes to what is listed.
* `Table.Ranked.traces_of_check`, `Table.Ranked.traces_of_take`, `Table.traces_of_dispatch` : one
  step of each function.
* `Table.Ranked.mem_failuresOf_iff` : one step of any call.
* `Table.Ranked.mem_failuresOf_iff_raised` : a run of calls.
-/

namespace JsonPattern

variable {ρ : Type}

namespace Table

variable [DecidableEq ρ]

/-! ### Choices between views -/

section Views

variable (T : Table ρ)

/-- The names that are present and may open one of several views. -/
def presentNames (views : List (View ρ)) (members : Members) : LabelSet :=
  .unions (views.map fun view ↦ T.present view members)

/-- The views that a name that is present may open. -/
def candidates (views : List (View ρ)) (members : Members) : List (View ρ) :=
  views.filter fun view ↦ !(T.present view members).isEmpty

/-- The labels of the names that may open one of several views. -/
def viewOpenings (views : List (View ρ)) : LabelSet :=
  T.openingLabels (alternativesOf (fun _ ↦ .keep) views)

/-- What is expected where none of several views can be opened. -/
def expectedOpenings (views : List (View ρ)) : LabelSet :=
  if (T.viewOpenings views).isEmpty then .singleton endOfMembers else T.viewOpenings views

/-- The labels of the checks that may apply to the member that opens one of several views. -/
def viewLabels (name : String) (views : List (View ρ)) : LabelSet :=
  T.valueLabels name (alternativesOf (fun _ ↦ .keep) views)

variable {T} {path : Path} {views : List (View ρ)} {members : Members} {name : String}
  {value : Json}

omit [DecidableEq ρ] in
theorem mem_presentNames {name : String} :
    name ∈ T.presentNames views members ↔ ∃ view ∈ views, name ∈ T.present view members := by
  rw [presentNames, LabelSet.mem_unions]
  simp

omit [DecidableEq ρ] in
theorem mem_candidates {view : View ρ} {name : String} (hview : view ∈ views)
    (hname : name ∈ T.present view members) : view ∈ T.candidates views members := by
  refine List.mem_filter.2 ⟨hview, ?_⟩
  rw [LabelSet.isEmpty_eq_false_iff.2 ⟨name, hname⟩]
  rfl

theorem dispatchViews_of_closed (hnames : (T.presentNames views members).toList = []) :
    T.dispatchViews path views members = ⟨members,
      [.unexpectedOf path (namesText members.names) (T.expectedOpenings views)]⟩ := by
  rw [presentNames] at hnames
  simp only [dispatchViews, dispatch, present_alternativesOf, hnames, expectedOpenings,
    viewOpenings, openingLabels_alternativesOf (T.takeView T.failures path) fun _ ↦ .keep]
  rfl

theorem dispatchViews_of_torn {first second : String} {rest : List String}
    (hnames : (T.presentNames views members).toList = first :: second :: rest) :
    T.dispatchViews path views members = ⟨members,
      [.ambiguous path (namesText (T.presentNames views members).toList)
        (T.viewOpenings (T.candidates views members))]⟩ := by
  have hcandidates := filter_alternativesOf (T.takeView T.failures path) views
    fun view ↦ !(T.present view members).isEmpty
  rw [hnames]
  rw [presentNames] at hnames
  simp only [dispatchViews, dispatch, present_alternativesOf, hnames, viewOpenings, candidates,
    hcandidates, openingLabels_alternativesOf (T.takeView T.failures path) fun _ ↦ .keep]

/-- Where one name decides, its value chooses between the views. -/
theorem Decides.dispatchViews_eq (hdecides : T.Decides views members name value) :
    T.dispatchViews path views members = T.dispatchByValue path
      (alternativesOf (T.takeView T.failures path) (T.candidates views members)) members name
        value := by
  rw [dispatchViews, Decides.dispatch_eq (by rwa [map_view_alternativesOf]), candidates]
  exact congrArg (T.dispatchByValue path · members name value)
    (filter_alternativesOf _ views fun view ↦ !(T.present view members).isEmpty)

theorem Decides.filter_opens_candidates (hdecides : T.Decides views members name value) :
    (alternativesOf (T.takeView T.failures path) (T.candidates views members)).filter
      (fun a ↦ T.opens name value a.view) =
        alternativesOf (T.takeView T.failures path) (views.filter (T.opens name value)) := by
  let all := alternativesOf (T.takeView T.failures path) views
  have hcandidates : all.filter (fun a ↦ !(T.present a.view members).isEmpty) =
      alternativesOf (T.takeView T.failures path) (T.candidates views members) :=
    filter_alternativesOf _ views fun view ↦ !(T.present view members).isEmpty
  have hopened : (all.filter fun a ↦ !(T.present a.view members).isEmpty).filter
      (fun a ↦ T.opens name value a.view) = all.filter fun a ↦ T.opens name value a.view :=
    Table.filter_opens_candidates hdecides.lookup_eq
  rw [hcandidates] at hopened
  exact hopened.trans (filter_alternativesOf _ views (T.opens name value))

theorem Decides.dispatchViews_of_unmatched (hdecides : T.Decides views members name value)
    (hnone : views.filter (T.opens name value) = []) :
    T.dispatchViews path views members = ⟨members.without name,
      [.unexpectedOf (path.member name) value.shallowText
        (T.viewLabels name (T.candidates views members))]⟩ := by
  rw [hdecides.dispatchViews_eq, dispatchByValue, hdecides.filter_opens_candidates, hnone,
    valueLabels_alternativesOf _ fun _ ↦ .keep]
  rfl

theorem Decides.dispatchViews_of_claimed (hdecides : T.Decides views members name value)
    (hseveral : 2 ≤ (views.filter (T.opens name value)).length) :
    T.dispatchViews path views members = ⟨members.without name,
      [.ambiguous (path.member name) value.shallowText
        (T.viewLabels name (views.filter (T.opens name value)))]⟩ := by
  rw [hdecides.dispatchViews_eq, dispatchByValue, hdecides.filter_opens_candidates, viewLabels]
  rcases hfilter : views.filter (T.opens name value) with _ | ⟨first, _ | ⟨second, rest⟩⟩
  · simp [hfilter] at hseveral
  · simp [hfilter] at hseveral
  · exact congrArg
      (fun labels ↦ Outcome.mk (members.without name)
        [.ambiguous (path.member name) value.shallowText labels])
      (valueLabels_alternativesOf _ _ (first :: second :: rest))

/-- What a choice between views comes to: no name that is present may open one, or several may, or
one name decides and its value opens no view, one of them, or several. -/
inductive DispatchedViews (T : Table ρ) (path : Path) (views : List (View ρ)) (members : Members) :
    Outcome → Prop
  | closed (hnames : (T.presentNames views members).toList = []) :
      DispatchedViews T path views members ⟨members,
        [.unexpectedOf path (namesText members.names) (T.expectedOpenings views)]⟩
  | torn {first second : String} {rest : List String}
      (hnames : (T.presentNames views members).toList = first :: second :: rest) :
      DispatchedViews T path views members ⟨members,
        [.ambiguous path (namesText (T.presentNames views members).toList)
          (T.viewOpenings (T.candidates views members))]⟩
  | unmatched {name : String} {value : Json}
      (hnames : (T.presentNames views members).toList = [name])
      (hdecides : T.Decides views members name value)
      (hnone : views.filter (T.opens name value) = []) :
      DispatchedViews T path views members ⟨members.without name,
        [.unexpectedOf (path.member name) value.shallowText
          (T.viewLabels name (T.candidates views members))]⟩
  | chosen {name : String} {value : Json} {winner : View ρ}
      (hnames : (T.presentNames views members).toList = [name])
      (hdecides : T.Decides views members name value)
      (hwinner : views.filter (T.opens name value) = [winner]) :
      DispatchedViews T path views members (T.takePart path (.view winner) members)
  | claimed {name : String} {value : Json}
      (hnames : (T.presentNames views members).toList = [name])
      (hdecides : T.Decides views members name value)
      (hseveral : 2 ≤ (views.filter (T.opens name value)).length) :
      DispatchedViews T path views members ⟨members.without name,
        [.ambiguous (path.member name) value.shallowText
          (T.viewLabels name (views.filter (T.opens name value)))]⟩

theorem dispatchedViews (path : Path) (views : List (View ρ)) (members : Members) :
    T.DispatchedViews path views members (T.dispatchViews path views members) := by
  rcases hnames : (T.presentNames views members).toList with _ | ⟨name, _ | ⟨second, rest⟩⟩
  · rw [dispatchViews_of_closed hnames]
    exact .closed hnames
  · obtain ⟨value, hdecides⟩ := exists_decides hnames
    rcases hfilter : views.filter (T.opens name value) with _ | ⟨winner, _ | ⟨other, others⟩⟩
    · rw [hdecides.dispatchViews_of_unmatched hfilter]
      exact .unmatched hnames hdecides hfilter
    · rw [dispatchViews, hdecides.dispatch_alternativesOf hfilter]
      exact .chosen hnames hdecides hfilter
    · have hseveral : 2 ≤ (views.filter (T.opens name value)).length := by simp [hfilter]
      rw [hdecides.dispatchViews_of_claimed hseveral]
      exact .claimed hnames hdecides hseveral
  · rw [dispatchViews_of_torn hnames]
    exact .torn hnames

end Views

/-! ### Delegation -/

/-- A call hands work on to another one, whose failures become its own. -/
inductive Delegates (T : Table ρ) : Call ρ → Call ρ → Prop
  -- the failures of a value
  | item {r element : ρ} {path : Path} {items : List Json} {i : Nat} {item : Json}
      (hcheck : T.check r = .arrayOf element) (hitem : items[i]? = some item) :
      Delegates T (.check r path (.array items)) (.check element (path.item i) item)
  | members {r : ρ} {clauses : List (Clause ρ)} (path : Path) (members : Members)
      (hcheck : T.check r = .object clauses) :
      Delegates T (.check r path (.object members)) (.take (.view (.group clauses)) path members)
  | single {r only : ρ} {alternatives : List ρ} {value : Json} (path : Path)
      (hcheck : T.check r = .oneOf alternatives)
      (hbranches : T.branches alternatives value = [.single only]) :
      Delegates T (.check r path value) (.check only path value)
  | objects {r : ρ} {alternatives objects : List ρ} {members : Members} (path : Path)
      (hcheck : T.check r = .oneOf alternatives)
      (hbranches : T.branches alternatives (.object members) = [.objects objects]) :
      Delegates T (.check r path (.object members)) (.dispatch (objects.map .ref) path members)
  -- what is left when a part takes members
  | named {name : String} {value : Json} {members : Members} (target : ρ) (path : Path)
      (hlookup : members.lookup name = some value) :
      Delegates T (.take (.clause (.named name target)) path members)
        (.check target (path.member name) value)
  | optional {group : List (Clause ρ)} {members : Members} (path : Path)
      (hpresent : (T.present (.group group) members).isEmpty = false) :
      Delegates T (.take (.clause (.optional group)) path members)
        (.take (.view (.group group)) path members)
  | many {member : String × Json} {members : Members} (target : ρ) (path : Path)
      (hmember : member ∈ members) :
      Delegates T (.take (.clause (.many target)) path members)
        (.check target (path.member member.1) member.2)
  | sequence {part : Part ρ} {before after : List (Clause ρ)} {clause : Clause ρ} (path : Path)
      (members : Members) (hexpand : T.expand part = .sequence (before ++ clause :: after)) :
      Delegates T (.take part path members) (.take (.clause clause) path
        (T.takePart path (.view (.group before)) members).rest)
  | alternatives {part : Part ρ} {views : List (View ρ)} (path : Path) (members : Members)
      (hexpand : T.expand part = .alternatives views) :
      Delegates T (.take part path members) (.dispatch views path members)
  -- what is left when one of several views takes members
  | chosen {views : List (View ρ)} {winner : View ρ} {members : Members} {name : String}
      {value : Json} (path : Path) (hdecides : T.Decides views members name value)
      (hwinner : views.filter (T.opens name value) = [winner]) :
      Delegates T (.dispatch views path members) (.take (.view winner) path members)

/-- A call reports a failure itself. -/
inductive Raises (T : Table ρ) : Call ρ → Failure → Prop
  -- a value that is looked at by itself
  | kind {r : ρ} {type : TypeName} {value : Json} (path : Path) (hcheck : T.check r = .kind type)
      (hvalue : type.accepts value.kind = false) :
      Raises T (.check r path value) (.unexpected path value.kind.label type.label)
  | literal {r : ρ} {literal value : Json} (path : Path) (hcheck : T.check r = .literal literal)
      (hvalue : literal.equal value = false) :
      Raises T (.check r path value) (literalFailure path literal value)
  | regex {r : ρ} {matcher : Matcher} {label s : String} (path : Path)
      (hcheck : T.check r = .regex matcher label) (hvalue : matcher.isMatch s = false) :
      Raises T (.check r path (.string s)) (.unexpected path (Json.string s).text label)
  | notString {r : ρ} {matcher : Matcher} {label : String} {value : Json} (path : Path)
      (hcheck : T.check r = .regex matcher label) (hvalue : value.string? = none) :
      Raises T (.check r path value) (.unexpected path value.kind.label "string")
  | notArray {r element : ρ} {value : Json} (path : Path)
      (hcheck : T.check r = .arrayOf element) (hvalue : value.isArray = false) :
      Raises T (.check r path value) (.unexpected path value.kind.label "array")
  | notObject {r : ρ} {clauses : List (Clause ρ)} {value : Json} (path : Path)
      (hcheck : T.check r = .object clauses) (hvalue : value.isObject = false) :
      Raises T (.check r path value) (.unexpected path value.kind.label "object")
  -- a value that fits no branch of a disjunction, or several
  | noBranch {r : ρ} {alternatives : List ρ} {value : Json} (path : Path)
      (hcheck : T.check r = .oneOf alternatives)
      (hbranches : T.branches alternatives value = []) :
      Raises T (.check r path value)
        (.unexpectedOf path value.shallowText (T.labelsOf alternatives))
  | branches {r : ρ} {alternatives : List ρ} {value : Json} (path : Path)
      (hcheck : T.check r = .oneOf alternatives)
      (hbranches : 2 ≤ (T.branches alternatives value).length) :
      Raises T (.check r path value) (.ambiguous path value.shallowText
        (.unions ((T.branches alternatives value).map T.branchLabels)))
  -- members that nothing has taken
  | leftOver {r : ρ} {clauses : List (Clause ρ)} {members : Members} {path : Path}
      (hcheck : T.check r = .object clauses)
      (hrest : (T.takePart path (.view (.group clauses)) members).rest ≠ []) :
      Raises T (.check r path (.object members)) (.unexpected path
        (namesText (T.takePart path (.view (.group clauses)) members).rest.names) endOfMembers)
  | leftOverOfObjects {r : ρ} {alternatives objects : List ρ} {members : Members} {path : Path}
      (hcheck : T.check r = .oneOf alternatives)
      (hbranches : T.branches alternatives (.object members) = [.objects objects])
      (hrest : (T.dispatchViews path (objects.map .ref) members).rest ≠ []) :
      Raises T (.check r path (.object members)) (.unexpected path
        (namesText (T.dispatchViews path (objects.map .ref) members).rest.names) endOfMembers)
  -- a member that is missing
  | missing {name : String} {members : Members} (target : ρ) (path : Path)
      (hlookup : members.lookup name = none) :
      Raises T (.take (.clause (.named name target)) path members)
        (.unexpected path (namesText members.names) (nameLabel name))
  -- members that open no view, or several
  | closed {views : List (View ρ)} {members : Members} (path : Path)
      (hnames : (T.presentNames views members).toList = []) :
      Raises T (.dispatch views path members)
        (.unexpectedOf path (namesText members.names) (T.expectedOpenings views))
  | torn {views : List (View ρ)} {members : Members} {first second : String} {rest : List String}
      (path : Path) (hnames : (T.presentNames views members).toList = first :: second :: rest) :
      Raises T (.dispatch views path members)
        (.ambiguous path (namesText (T.presentNames views members).toList)
          (T.viewOpenings (T.candidates views members)))
  | unmatched {views : List (View ρ)} {members : Members} {name : String} {value : Json}
      (path : Path) (hdecides : T.Decides views members name value)
      (hnone : views.filter (T.opens name value) = []) :
      Raises T (.dispatch views path members) (.unexpectedOf (path.member name) value.shallowText
        (T.viewLabels name (T.candidates views members)))
  | claimed {views : List (View ρ)} {members : Members} {name : String} {value : Json}
      (path : Path) (hdecides : T.Decides views members name value)
      (hseveral : 2 ≤ (views.filter (T.opens name value)).length) :
      Raises T (.dispatch views path members) (.ambiguous (path.member name) value.shallowText
        (T.viewLabels name (views.filter (T.opens name value))))

/-- The failures that are found by a call. -/
def failuresOf (T : Table ρ) : Call ρ → List Failure
  | .check r path value => T.failures r path value
  | .take part path members => (T.takePart path part members).failures
  | .dispatch views path members => (T.dispatchViews path views members).failures
  | _ => []

/-! ### One call -/

variable {T : Table ρ} {rank : ρ → Nat} {call call' : Call ρ} {failure : Failure}

/-- What a part leaves was there before. -/
theorem takePart_rest_sublist (path : Path) (part : Part ρ) (members : Members) :
    (T.takePart path part members).rest.Sublist members := by
  have htarget (t : ρ) (members : Members) :
      (T.takeTargetWithin T.failures path T.hops t members).rest.Sublist members :=
    takeTargetWithin_rest_sublist members
  cases part with
  | clause clause => exact takeClause_rest_sublist htarget clause members
  | view view =>
    cases view with
    | group clauses => exact takeGroup_rest_sublist htarget clauses members
    | ref target => exact htarget target members

theorem dispatchViews_rest_sublist (path : Path) (views : List (View ρ)) (members : Members) :
    (T.dispatchViews path views members).rest.Sublist members := by
  refine dispatch_rest_sublist fun a ha ↦ ?_
  obtain ⟨view, -, rfl⟩ := List.mem_map.1 ha
  exact takePart_rest_sublist path (.view view) members

omit [DecidableEq ρ] in
theorem mem_closeObject_iff {path : Path} {outcome : Outcome} {failure : Failure} :
    failure ∈ closeObject path outcome ↔ failure ∈ outcome.failures ∨ outcome.rest ≠ [] ∧
      failure = .unexpected path (namesText outcome.rest.names) endOfMembers := by
  rw [closeObject]
  cases outcome.rest <;> simp

theorem Ranked.takePart_eq_of_sequence (h : T.Ranked Set.univ rank) {part : Part ρ}
    {clauses : List (Clause ρ)} (hexpand : T.expand part = .sequence clauses) (path : Path)
    (members : Members) :
    T.takePart path part members = T.takePart path (.view (.group clauses)) members := by
  rw [takePart_eq h, hexpand]
  rfl

/-- What a call raises is one of its failures. -/
theorem Ranked.mem_failuresOf_of_raises (h : T.Ranked Set.univ rank)
    (hraises : T.Raises call failure) : failure ∈ T.failuresOf call := by
  cases hraises with
  | kind path hcheck hvalue | literal path hcheck hvalue | regex path hcheck hvalue =>
    rw [failuresOf, h.failures_eq (Set.mem_univ _), hcheck]
    simp [hvalue]
  | @notString r regex label value path hcheck hvalue =>
    rw [failuresOf, h.failures_eq (Set.mem_univ _), hcheck]
    cases value with
    | string s => cases hvalue
    | null | bool | integer | float | array | object => exact List.mem_singleton_self _
  | @notArray r element value path hcheck hvalue =>
    rw [failuresOf, h.failures_eq (Set.mem_univ _), hcheck]
    cases value with
    | array items => cases hvalue
    | null | bool | integer | float | string | object => exact List.mem_singleton_self _
  | @notObject r clauses value path hcheck hvalue =>
    rw [failuresOf, h.failures_eq (Set.mem_univ _), hcheck]
    cases value with
    | object members => cases hvalue
    | null | bool | integer | float | string | array => exact List.mem_singleton_self _
  | noBranch path hcheck hbranches =>
    rw [failuresOf, h.failures_eq (Set.mem_univ _), hcheck]
    simp [hbranches]
  | branches path hcheck hbranches =>
    rw [failuresOf, h.failures_eq_of_two_le (Set.mem_univ _) hcheck hbranches]
    exact List.mem_singleton_self _
  | leftOver hcheck hrest =>
    rw [failuresOf, h.failures_eq (Set.mem_univ _), hcheck]
    exact mem_closeObject_iff.2 (.inr ⟨hrest, rfl⟩)
  | leftOverOfObjects hcheck hbranches hrest =>
    rw [failuresOf, h.failures_eq (Set.mem_univ _), hcheck]
    simp only [hbranches, dispatch_map_ref]
    exact mem_closeObject_iff.2 (.inr ⟨hrest, rfl⟩)
  | missing target path hlookup =>
    simp only [failuresOf, takePart, takeClause, hlookup]
    exact List.mem_singleton_self _
  | closed path hnames =>
    rw [failuresOf, dispatchViews_of_closed hnames]
    exact List.mem_singleton_self _
  | torn path hnames =>
    rw [failuresOf, dispatchViews_of_torn hnames]
    exact List.mem_singleton_self _
  | unmatched path hdecides hnone =>
    rw [failuresOf, hdecides.dispatchViews_of_unmatched hnone]
    exact List.mem_singleton_self _
  | claimed path hdecides hseveral =>
    rw [failuresOf, hdecides.dispatchViews_of_claimed hseveral]
    exact List.mem_singleton_self _

/-- The failures of a call that another one delegates to are failures of the latter. -/
theorem Ranked.failuresOf_subset_of_delegates (h : T.Ranked Set.univ rank)
    (hdelegates : T.Delegates call call') : T.failuresOf call' ⊆ T.failuresOf call := by
  intro failure hfailure
  cases hdelegates with
  | item hcheck hitem =>
    rw [failuresOf, h.failures_eq (Set.mem_univ _), hcheck]
    exact List.mem_flatMap.2 ⟨_, List.mk_mem_zipIdx_iff_getElem?.2 hitem, hfailure⟩
  | members path members hcheck =>
    rw [failuresOf, h.failures_eq (Set.mem_univ _), hcheck]
    exact mem_closeObject_iff.2 (.inl hfailure)
  | single path hcheck hbranches =>
    rw [failuresOf, h.failures_eq (Set.mem_univ _), hcheck]
    simp only [hbranches]
    exact hfailure
  | objects path hcheck hbranches =>
    rw [failuresOf, h.failures_eq (Set.mem_univ _), hcheck]
    simp only [hbranches, dispatch_map_ref]
    exact mem_closeObject_iff.2 (.inl hfailure)
  | named target path hlookup =>
    simp only [failuresOf, takePart, takeClause, hlookup]
    exact hfailure
  | optional path hpresent =>
    simp only [failuresOf, takePart, takeClause, hpresent, Bool.false_eq_true, if_false]
    exact hfailure
  | many target path hmember => exact List.mem_flatMap.2 ⟨_, hmember, hfailure⟩
  | sequence path members hexpand =>
    rw [failuresOf, h.takePart_eq_of_sequence hexpand, takePart, takeView_append]
    exact List.mem_append_right _ (List.mem_append_left _ hfailure)
  | alternatives path members hexpand =>
    rw [failuresOf, takePart_eq h, hexpand]
    exact hfailure
  | chosen path hdecides hwinner =>
    rw [failuresOf, dispatchViews, hdecides.dispatch_alternativesOf hwinner]
    exact hfailure

/-- A failure is traced back one step from a call: the call raises it, or it is a failure of a call
that this one delegates to. -/
def Traces (T : Table ρ) (call : Call ρ) (failure : Failure) : Prop :=
  T.Raises call failure ∨ ∃ call', T.Delegates call call' ∧ failure ∈ T.failuresOf call'

section Checks

variable (h : T.Ranked Set.univ rank) {r : ρ} {path : Path} {value : Json}
  (hfailure : failure ∈ T.failures r path value)

include h hfailure

theorem Ranked.traces_of_kind {type : TypeName} (hcheck : T.check r = .kind type) :
    T.Traces (.check r path value) failure := by
  rw [h.failures_eq (Set.mem_univ r), hcheck] at hfailure
  simp only at hfailure
  split at hfailure
  · exact absurd hfailure List.not_mem_nil
  · next hvalue =>
    obtain rfl := List.mem_singleton.1 hfailure
    exact .inl (.kind path hcheck (Bool.eq_false_iff.2 hvalue))

theorem Ranked.traces_of_literal {literal : Json} (hcheck : T.check r = .literal literal) :
    T.Traces (.check r path value) failure := by
  rw [h.failures_eq (Set.mem_univ r), hcheck] at hfailure
  simp only at hfailure
  split at hfailure
  · exact absurd hfailure List.not_mem_nil
  · next hvalue =>
    obtain rfl := List.mem_singleton.1 hfailure
    exact .inl (.literal path hcheck (Bool.eq_false_iff.2 hvalue))

theorem Ranked.traces_of_regex {matcher : Matcher} {label : String}
    (hcheck : T.check r = .regex matcher label) : T.Traces (.check r path value) failure := by
  rw [h.failures_eq (Set.mem_univ r), hcheck] at hfailure
  cases value with
  | string s =>
    simp only at hfailure
    split at hfailure
    · exact absurd hfailure List.not_mem_nil
    · next hvalue =>
      obtain rfl := List.mem_singleton.1 hfailure
      exact .inl (.regex path hcheck (Bool.eq_false_iff.2 hvalue))
  | null | bool | integer | float | array | object =>
    obtain rfl := List.mem_singleton.1 hfailure
    exact .inl (.notString path hcheck rfl)

theorem Ranked.traces_of_arrayOf {element : ρ} (hcheck : T.check r = .arrayOf element) :
    T.Traces (.check r path value) failure := by
  rw [h.failures_eq (Set.mem_univ r), hcheck] at hfailure
  cases value with
  | array items =>
    obtain ⟨⟨item, i⟩, hitem, hfailure⟩ := List.mem_flatMap.1 hfailure
    exact .inr ⟨_, .item hcheck (List.mk_mem_zipIdx_iff_getElem?.1 hitem), hfailure⟩
  | null | bool | integer | float | string | object =>
    obtain rfl := List.mem_singleton.1 hfailure
    exact .inl (.notArray path hcheck rfl)

theorem Ranked.traces_of_object {clauses : List (Clause ρ)} (hcheck : T.check r = .object clauses) :
    T.Traces (.check r path value) failure := by
  rw [h.failures_eq (Set.mem_univ r), hcheck] at hfailure
  cases value with
  | object members =>
    rcases mem_closeObject_iff.1 hfailure with hfailure | ⟨hrest, rfl⟩
    · exact .inr ⟨_, .members path members hcheck, hfailure⟩
    · exact .inl (.leftOver hcheck hrest)
  | null | bool | integer | float | string | array =>
    obtain rfl := List.mem_singleton.1 hfailure
    exact .inl (.notObject path hcheck rfl)

theorem Ranked.traces_of_oneOf {alternatives : List ρ} (hcheck : T.check r = .oneOf alternatives) :
    T.Traces (.check r path value) failure := by
  by_cases hlength : 2 ≤ (T.branches alternatives value).length
  · rw [h.failures_eq_of_two_le (Set.mem_univ r) hcheck hlength] at hfailure
    obtain rfl := List.mem_singleton.1 hfailure
    exact .inl (.branches path hcheck hlength)
  rw [h.failures_eq (Set.mem_univ r), hcheck] at hfailure
  rcases hbranches : T.branches alternatives value with _ | ⟨first, _ | ⟨second, rest⟩⟩
  · simp only [hbranches] at hfailure
    obtain rfl := List.mem_singleton.1 hfailure
    exact .inl (.noBranch path hcheck hbranches)
  · cases first with
    | single only =>
      simp only [hbranches] at hfailure
      exact .inr ⟨_, .single path hcheck hbranches, hfailure⟩
    | objects objects =>
      cases value with
      | object members =>
        simp only [hbranches, dispatch_map_ref] at hfailure
        rcases mem_closeObject_iff.1 hfailure with hfailure | ⟨hrest, rfl⟩
        · exact .inr ⟨_, .objects path hcheck hbranches, hfailure⟩
        · exact .inl (.leftOverOfObjects hcheck hbranches hrest)
      | null | bool | integer | float | string | array =>
        simp only [hbranches] at hfailure
        exact absurd hfailure List.not_mem_nil
  · exact absurd (by simp [hbranches]) hlength

/-- A failure of a value is raised by the look at it, or comes of what it is handed on to. -/
theorem Ranked.traces_of_check : T.Traces (.check r path value) failure := by
  cases hcheck : T.check r with
  | kind type => exact h.traces_of_kind hfailure hcheck
  | literal literal => exact h.traces_of_literal hfailure hcheck
  | regex matcher label => exact h.traces_of_regex hfailure hcheck
  | arrayOf element => exact h.traces_of_arrayOf hfailure hcheck
  | object clauses => exact h.traces_of_object hfailure hcheck
  | oneOf alternatives => exact h.traces_of_oneOf hfailure hcheck
  | anything =>
    rw [h.failures_eq (Set.mem_univ r), hcheck] at hfailure
    exact absurd hfailure List.not_mem_nil

end Checks

/-- What a list of clauses meets, one of its clauses meets with what those before it have left. -/
theorem exists_clause_of_mem_takeView {path : Path} {clauses : List (Clause ρ)} {members : Members}
    (hfailure : failure ∈ (T.takePart path (.view (.group clauses)) members).failures) :
    ∃ before clause after, clauses = before ++ clause :: after ∧
      failure ∈ (T.takePart path (.clause clause)
        (T.takePart path (.view (.group before)) members).rest).failures := by
  -- The clauses are split off from the end, so that those before one stay together.
  induction clauses using List.reverseRecOn with
  | nil => exact absurd hfailure List.not_mem_nil
  | append_singleton clauses clause ih =>
    rw [takePart, takeView_append] at hfailure
    rcases List.mem_append.1 hfailure with hfailure | hfailure
    · obtain ⟨before, other, after, rfl, hother⟩ := ih hfailure
      exact ⟨before, other, after ++ [clause], by simp, hother⟩
    · simp only [takeView, takeGroup, Outcome.andThen, Outcome.keep, List.append_nil] at hfailure
      exact ⟨clauses, clause, [], rfl, hfailure⟩

theorem Ranked.traces_of_take (h : T.Ranked Set.univ rank) {part : Part ρ} {path : Path}
    {members : Members} (hfailure : failure ∈ (T.takePart path part members).failures) :
    T.Traces (.take part path members) failure := by
  have hexpands := T.expands part
  cases hexpand : T.expand part with
  | leaf clause =>
    rw [hexpand] at hexpands
    cases hexpands with
    | named name target =>
      rw [takePart, takeClause] at hfailure
      split at hfailure
      · next value hlookup => exact .inr ⟨_, .named target path hlookup, hfailure⟩
      · next hlookup =>
        obtain rfl := List.mem_singleton.1 hfailure
        exact .inl (.missing target path hlookup)
    | optional group =>
      rw [takePart, takeClause] at hfailure
      split at hfailure
      · exact absurd hfailure List.not_mem_nil
      · next hpresent =>
        exact .inr ⟨_, .optional path (Bool.eq_false_iff.2 hpresent), hfailure⟩
    | many target =>
      obtain ⟨member, hmember, hfailure⟩ := List.mem_flatMap.1 hfailure
      exact .inr ⟨_, .many target path hmember, hfailure⟩
  | sequence clauses =>
    rw [h.takePart_eq_of_sequence hexpand] at hfailure
    obtain ⟨before, clause, after, rfl, hclause⟩ := exists_clause_of_mem_takeView hfailure
    exact .inr ⟨_, .sequence path members hexpand, hclause⟩
  | alternatives views =>
    rw [takePart_eq h, hexpand] at hfailure
    exact .inr ⟨_, .alternatives path members hexpand, hfailure⟩
  | nothing =>
    rw [takePart_eq h, hexpand] at hfailure
    exact absurd hfailure List.not_mem_nil

theorem traces_of_dispatch {views : List (View ρ)} {path : Path} {members : Members}
    (hfailure : failure ∈ (T.dispatchViews path views members).failures) :
    T.Traces (.dispatch views path members) failure := by
  have hdispatched := T.dispatchedViews path views members
  generalize T.dispatchViews path views members = outcome at hfailure hdispatched
  cases hdispatched with
  | closed hnames =>
    obtain rfl := List.mem_singleton.1 hfailure
    exact .inl (.closed path hnames)
  | torn hnames =>
    obtain rfl := List.mem_singleton.1 hfailure
    exact .inl (.torn path hnames)
  | unmatched _ hdecides hnone =>
    obtain rfl := List.mem_singleton.1 hfailure
    exact .inl (.unmatched path hdecides hnone)
  | chosen _ hdecides hwinner => exact .inr ⟨_, .chosen path hdecides hwinner, hfailure⟩
  | claimed _ hdecides hseveral =>
    obtain rfl := List.mem_singleton.1 hfailure
    exact .inl (.claimed path hdecides hseveral)

/-- One step: the failures of a call are those that it raises and those of the calls that it
delegates to. -/
theorem Ranked.mem_failuresOf_iff (h : T.Ranked Set.univ rank) :
    failure ∈ T.failuresOf call ↔ T.Traces call failure := by
  constructor
  · intro hfailure
    cases call with
    | check r path value => exact h.traces_of_check hfailure
    | take part path members => exact h.traces_of_take hfailure
    | dispatch views path members => exact traces_of_dispatch hfailure
    | fits | branches | describe | describeAll | firstNames | firstChecks | opens =>
      exact absurd hfailure List.not_mem_nil
  · rintro (hraises | ⟨call', hdelegates, hfailure⟩)
    · exact h.mem_failuresOf_of_raises hraises
    · exact h.failuresOf_subset_of_delegates hdelegates hfailure

/-! ### Runs of calls -/

/-- What a call delegates to, it calls. -/
theorem Delegates.makes (hdelegates : T.Delegates call call') : T.Makes call call' := by
  cases hdelegates with
  | item hcheck hitem => exact .item _ hcheck (List.mem_of_getElem? hitem)
  | members path members hcheck => exact .members path members hcheck
  | single path hcheck hbranches =>
    exact .single path hcheck (hbranches ▸ List.mem_singleton_self _)
  | objects path hcheck hbranches =>
    exact .objects path hcheck (hbranches ▸ List.mem_singleton_self _)
  | named target path hlookup => exact .named target path hlookup
  | optional path hpresent => exact .take path (.optional _) (.refl _)
  | many target path hmember => exact .many target path hmember
  | @sequence part before after clause path members hexpand =>
    have hexpands := T.expands part
    rw [hexpand] at hexpands
    exact .take path (.sequence hexpands (List.mem_append_right _ List.mem_cons_self))
      (takePart_rest_sublist path (.view (.group before)) members)
  | @alternatives part views path members hexpand =>
    exact .dispatch path members (hexpand ▸ T.expands part)
  | chosen path hdecides hwinner =>
    exact .viewTake path _ (List.mem_filter.1 (hwinner ▸ List.mem_singleton_self _)).1

section Runs

variable (h : T.Ranked Set.univ rank)

include h

/-- The failures of a call are those raised by the calls that it leads to. -/
theorem Ranked.mem_failuresOf_iff_raised {bound : Nat}
    (hsize : ∀ r, (T.check r).size + 2 ≤ bound) :
    failure ∈ T.failuresOf call ↔
      ∃ call', Relation.ReflTransGen T.Delegates call call' ∧ T.Raises call' failure := by
  constructor
  · -- The calls within a call are smaller, so tracing a failure comes to an end.
    intro hfailure
    induction hmeasure : call.measure T rank using WellFoundedLT.induction generalizing call with
    | ind m ih =>
      subst hmeasure
      rcases h.mem_failuresOf_iff.1 hfailure with hraises | ⟨next, hdelegates, hfailure⟩
      · exact ⟨call, .refl, hraises⟩
      · have hlt := (hdelegates.makes.below h hsize).measure_lt
        obtain ⟨call', hrun, hraises⟩ := ih _ hlt hfailure rfl
        exact ⟨call', .head hdelegates hrun, hraises⟩
  · rintro ⟨call', hrun, hraises⟩
    induction hrun using Relation.ReflTransGen.head_induction_on with
    | refl => exact h.mem_failuresOf_of_raises hraises
    | head hdelegates _ ih => exact h.failuresOf_subset_of_delegates hdelegates ih

end Runs

end Table

end JsonPattern
