import JsonPattern.Proofs.Validator.Makes

/-!
# Answers to calls

Every function of a validator, performed with the right answers to the calls that it makes, yields
the right answer: `Table.perform_eq_of_makes`. These calls are below it, so calls are answered over
as many levels as their index.

## Main definitions

* `Table.partFirstNames`, `Table.partFirstChecks`, `Table.partOpens`, `Table.takePart` : what is
  asked of a part.
* `Table.answer` : the answer to a call.

## Main results

* `Table.performCheck_eq`, `Table.performTake_eq`, `Table.performDispatch_eq` : functions performed
  with the right answers, each by itself.
* `Table.perform_eq_of_makes` : a function called yields the right answer.
* `Table.run_eq` : a call is answered over as many levels as its index.
-/

namespace JsonPattern

/-! ### Effects that succeed -/

section Effects

variable {α β : Type}

theorem mapM_eq_some {f : α → Option β} {g : α → β} {as : List α} (h : ∀ a ∈ as, f a = some (g a)) :
    as.mapM f = some (as.map g) := by
  induction as with
  | nil => rfl
  | cons a as ih =>
    rw [List.mapM_cons, h a List.mem_cons_self, ih fun b hb ↦ h b (List.mem_cons_of_mem a hb)]
    rfl

theorem select_eq_some {test : α → Option Bool} {p : α → Bool} {as : List α}
    (h : ∀ a ∈ as, test a = some (p a)) : select test as = some (as.filter p) := by
  induction as with
  | nil => rfl
  | cons a as ih =>
    rw [select, h a List.mem_cons_self, ih fun b hb ↦ h b (List.mem_cons_of_mem a hb),
      List.filter_cons]
    rfl

theorem anyM_eq_some {test : α → Option Bool} {p : α → Bool} {as : List α}
    (h : ∀ a ∈ as, test a = some (p a)) : as.anyM test = some (as.any p) := by
  induction as with
  | nil => rfl
  | cons a as ih =>
    rw [List.anyM, h a List.mem_cons_self, ih fun b hb ↦ h b (List.mem_cons_of_mem a hb),
      List.any_cons]
    cases p a <;> rfl

end Effects

variable {ρ : Type}

/-! ### Leading clauses -/

theorem leading_subset (group : List (Clause ρ)) : leading group ⊆ group := by
  induction group with
  | nil => exact List.Subset.refl _
  | cons clause group ih =>
    rw [leading]
    split
    · exact List.cons_subset_cons clause ih
    · exact List.cons_subset_cons clause (List.nil_subset group)

theorem groupFirstNames_eq_unions {ofTarget : ρ → LabelSet} (group : List (Clause ρ)) :
    groupFirstNames ofTarget group =
      .unions ((leading group).map (Clause.firstNames ofTarget)) := by
  induction group with
  | nil => rfl
  | cons clause group ih =>
    rw [groupFirstNames, leading]
    split
    · rw [List.map_cons, LabelSet.unions_cons, ih]
    · rw [List.map_cons, LabelSet.unions_cons]
      rfl

theorem groupsFirstNames_eq_unions {ofTarget : ρ → LabelSet} (groups : List (List (Clause ρ))) :
    groupsFirstNames ofTarget groups = .unions (groups.map (groupFirstNames ofTarget)) := by
  induction groups with
  | nil => rfl
  | cons group groups ih => rw [groupsFirstNames, List.map_cons, LabelSet.unions_cons, ih]

theorem groupFirstChecks_eq_flatten {ofTarget : ρ → List ρ} {name : String}
    (group : List (Clause ρ)) :
    groupFirstChecks ofTarget name group =
      ((leading group).map (Clause.firstChecks ofTarget name)).flatten := by
  induction group with
  | nil => rfl
  | cons clause group ih =>
    rw [groupFirstChecks, leading]
    split
    · rw [List.map_cons, List.flatten_cons, ih]
    · simp

theorem groupsFirstChecks_eq_flatten {ofTarget : ρ → List ρ} {name : String}
    (groups : List (List (Clause ρ))) :
    groupsFirstChecks ofTarget name groups =
      (groups.map (groupFirstChecks ofTarget name)).flatten := by
  induction groups with
  | nil => rfl
  | cons group groups ih => rw [groupsFirstChecks, List.map_cons, List.flatten_cons, ih]

theorem groupOpens_eq_any {fits ofTarget : ρ → Bool} {name : String} (group : List (Clause ρ)) :
    groupOpens fits ofTarget name group =
      (leading group).any (Clause.opens fits ofTarget name) := by
  induction group with
  | nil => rfl
  | cons clause group ih =>
    rw [groupOpens, leading, ih]
    cases clause.isOptional <;> simp

namespace Table

variable [DecidableEq ρ] (T : Table ρ)

/-! ### Answers -/

/-- The names that may open a part. -/
def partFirstNames : Part ρ → LabelSet
  | .clause clause => clause.firstNames (T.firstNamesWithin T.hops)
  | .view view => T.firstNames view

/-- The checks that may apply to the value of a member, if it opens a part. -/
def partFirstChecks (name : String) : Part ρ → List ρ
  | .clause clause => clause.firstChecks (T.firstChecksWithin name T.hops) name
  | .view view => T.firstChecks name view

/-- Whether a member opens a part with a value that fits. -/
def partOpens (name : String) (value : Json) : Part ρ → Bool
  | .clause clause => clause.opens (T.fits · value) (T.opensWithin name value T.hops) name
  | .view view => T.opens name value view

/-- How a part takes members. -/
def takePart (path : Path) : Part ρ → Members → Outcome
  | .clause clause =>
    T.takeClause T.failures (T.takeTargetWithin T.failures path T.hops) path clause
  | .view view => T.takeView T.failures path view

/-- The branches of a disjunction that a value fits. -/
def branchesAt (r : ρ) (value : Json) : List (Branch ρ) :=
  match T.check r with
  | .oneOf alternatives => T.branches alternatives value
  | _ => []

/-- The answer to a call. -/
def answer : (call : Call ρ) → call.Answer
  | .check r path value => T.failures r path value
  | .fits r value => T.fits r value
  | .branches r value => T.branchesAt r value
  | .describe r => T.labels r
  | .describeAll rs => T.labelsOf rs
  | .firstNames part => T.partFirstNames part
  | .firstChecks part name => T.partFirstChecks name part
  | .opens part name value => T.partOpens name value part
  | .take part path members => T.takePart path part members
  | .dispatch views path members => T.dispatchViews path views members

variable {T} {rank : ρ → Nat} {bound rounds : Nat} {ask : (call : Call ρ) → Option call.Answer}

/-! ### Unfolded parts -/

section Parts

variable (h : T.Ranked Set.univ rank)

include h

theorem partFirstNames_eq (part : Part ρ) : T.partFirstNames part = match T.expand part with
    | .leaf clause => T.partFirstNames (.clause clause)
    | .sequence clauses =>
      .unions ((leading clauses).map fun clause ↦ T.partFirstNames (.clause clause))
    | .alternatives views => .unions (views.map T.firstNames)
    | .nothing => ∅ := by
  have href {part : Part ρ} {t : ρ} (hpart : part.IsRef t) :
      T.partFirstNames part = T.firstNames (.ref t) := by rcases hpart with rfl | rfl <;> rfl
  have hexpands := T.expands part
  generalize T.expand part = expanded at hexpands ⊢
  cases hexpands with
  | named | optional | many => rfl
  | group clauses => exact groupFirstNames_eq_unions clauses
  | oneOf groups =>
    simp only [List.map_map]
    exact groupsFirstNames_eq_unions groups
  | object hpart hcheck =>
    rw [href hpart, h.firstNames_ref_eq (Set.mem_univ _), hcheck]
    exact groupFirstNames_eq_unions _
  | alternatives hpart hcheck =>
    rw [href hpart, h.firstNames_ref_eq (Set.mem_univ _), hcheck]
    simp only [List.map_map]
    rfl
  | nothing hpart hobject honeOf =>
    rw [href hpart, h.firstNames_ref_eq (Set.mem_univ _)]
    split <;> first | rfl | simp_all

theorem partFirstChecks_eq (name : String) (part : Part ρ) :
    T.partFirstChecks name part = match T.expand part with
      | .leaf clause => T.partFirstChecks name (.clause clause)
      | .sequence clauses =>
        ((leading clauses).map fun clause ↦ T.partFirstChecks name (.clause clause)).flatten
      | .alternatives views => (views.map (T.firstChecks name)).flatten
      | .nothing => [] := by
  have href {part : Part ρ} {t : ρ} (hpart : part.IsRef t) :
      T.partFirstChecks name part = T.firstChecks name (.ref t) := by
    rcases hpart with rfl | rfl <;> rfl
  have hexpands := T.expands part
  generalize T.expand part = expanded at hexpands ⊢
  cases hexpands with
  | named | optional | many => rfl
  | group clauses => exact groupFirstChecks_eq_flatten clauses
  | oneOf groups =>
    simp only [List.map_map]
    exact groupsFirstChecks_eq_flatten groups
  | object hpart hcheck =>
    rw [href hpart, h.firstChecks_ref_eq (Set.mem_univ _), hcheck]
    exact groupFirstChecks_eq_flatten _
  | alternatives hpart hcheck =>
    rw [href hpart, h.firstChecks_ref_eq (Set.mem_univ _), hcheck]
    simp only [List.map_map]
    exact List.flatMap_def
  | nothing hpart hobject honeOf =>
    rw [href hpart, h.firstChecks_ref_eq (Set.mem_univ _)]
    split <;> first | rfl | simp_all

theorem partOpens_eq (name : String) (value : Json) (part : Part ρ) :
    T.partOpens name value part = match T.expand part with
      | .leaf clause => T.partOpens name value (.clause clause)
      | .sequence clauses =>
        (leading clauses).any fun clause ↦ T.partOpens name value (.clause clause)
      | .alternatives views => views.countP (T.opens name value) == 1
      | .nothing => false := by
  have href {part : Part ρ} {t : ρ} (hpart : part.IsRef t) :
      T.partOpens name value part = T.opens name value (.ref t) := by
    rcases hpart with rfl | rfl <;> rfl
  have hexpands := T.expands part
  generalize T.expand part = expanded at hexpands ⊢
  cases hexpands with
  | named | optional | many => rfl
  | group clauses => exact groupOpens_eq_any clauses
  | oneOf groups =>
    simp only [List.countP_map]
    exact congrArg (· == 1) (groupsOpened_eq_countP groups)
  | object hpart hcheck =>
    rw [href hpart, h.opens_ref_eq (Set.mem_univ _), hcheck]
    exact groupOpens_eq_any _
  | alternatives hpart hcheck =>
    rw [href hpart, h.opens_ref_eq (Set.mem_univ _), hcheck]
    simp only [List.countP_map]
    rfl
  | nothing hpart hobject honeOf =>
    rw [href hpart, h.opens_ref_eq (Set.mem_univ _)]
    split <;> first | rfl | simp_all

theorem takePart_eq (path : Path) (part : Part ρ) (members : Members) :
    T.takePart path part members = match T.expand part with
      | .leaf clause => T.takePart path (.clause clause) members
      | .sequence clauses => T.takeView T.failures path (.group clauses) members
      | .alternatives views => T.dispatchViews path views members
      | .nothing => .keep members := by
  have href {part : Part ρ} {t : ρ} (hpart : part.IsRef t) :
      T.takePart path part members = T.takeView T.failures path (.ref t) members := by
    rcases hpart with rfl | rfl <;> rfl
  have hexpands := T.expands part
  generalize T.expand part = expanded at hexpands ⊢
  cases hexpands with
  | named | optional | many | group => rfl
  | oneOf groups =>
    simp only [takePart, takeClause, takeEither_eq_map, dispatchViews, alternativesOf, List.map_map]
    rfl
  | object hpart hcheck => rw [href hpart, h.takeView_ref_eq (Set.mem_univ _), hcheck]
  | alternatives hpart hcheck =>
    rw [href hpart, h.takeView_ref_eq (Set.mem_univ _), hcheck]
    simp only [dispatchViews, alternativesOf, List.map_map]
    rfl
  | nothing hpart hobject honeOf =>
    rw [href hpart, h.takeView_ref_eq (Set.mem_univ _)]
    split <;> first | rfl | simp_all

end Parts

/-! ### Labels of views -/

omit [DecidableEq ρ] in
theorem performOpeningLabels_eq (take : View ρ → Members → Outcome) {views : List (View ρ)}
    (hnames : ∀ view ∈ views, ask (.firstNames (.view view)) = some (T.firstNames view)) :
    performOpeningLabels ask views = some (T.openingLabels (alternativesOf take views)) := by
  have hlabels : (views.mapM fun view ↦ do
      let names ← ask (.firstNames (.view view))
      return LabelSet.ofList (names.toList.map nameLabel)) =
        some (views.map fun view ↦ .ofList ((T.firstNames view).toList.map nameLabel)) :=
    mapM_eq_some fun view hview ↦ by
      rw [hnames view hview]
      rfl
  rw [performOpeningLabels, hlabels, openingLabels, alternativesOf, List.map_map]
  rfl

omit [DecidableEq ρ] in
theorem performValueLabels_eq (take : View ρ → Members → Outcome) {views : List (View ρ)}
    {name : String}
    (hchecks : ∀ view ∈ views,
      ask (.firstChecks (.view view) name) = some (T.firstChecks name view))
    (hdescribe : ∀ view ∈ views, ask (.describeAll (T.firstChecks name view)) =
      some (T.labelsOf (T.firstChecks name view))) :
    performValueLabels ask views name = some (T.valueLabels name (alternativesOf take views)) := by
  have hlabels : (views.mapM fun view ↦ do
      let checks ← ask (.firstChecks (.view view) name)
      ask (.describeAll checks)) =
        some (views.map fun view ↦ T.labelsOf (T.firstChecks name view)) :=
    mapM_eq_some fun view hview ↦ by
      rw [hchecks view hview]
      exact hdescribe view hview
  rw [performValueLabels, hlabels, valueLabels, alternativesOf, List.map_map]
  rfl

section Perform

variable (h : T.Ranked Set.univ rank)

include h

/-! ### Looks -/

theorem performDescribe_eq {r : ρ}
    (hask : ∀ call, T.Makes (.describe r) call → ask call = some (T.answer call)) :
    T.performDescribe ask r = some (T.labels r) := by
  rw [performDescribe, h.labels_eq (Set.mem_univ r)]
  cases hcheck : T.check r with
  | oneOf alternatives => exact hask (.describeAll alternatives) (.describe hcheck)
  | kind | literal | regex | arrayOf | object | anything => rfl

theorem performFits_eq {r : ρ} {value : Json}
    (hask : ∀ call, T.Makes (.fits r value) call → ask call = some (T.answer call)) :
    T.performFits ask r value = some (T.fits r value) := by
  rw [performFits, h.fits_eq (Set.mem_univ r)]
  cases hcheck : T.check r with
  | oneOf alternatives =>
    have hbranches := hask (.branches r value) (.fits value hcheck)
    rw [answer, branchesAt, hcheck] at hbranches
    simp only [hbranches]
    rfl
  | regex => cases value <;> rfl
  | kind | literal | arrayOf | object | anything => rfl

theorem performBranches_eq {r : ρ} {value : Json}
    (hrounds : ∀ alternatives, T.check r = .oneOf alternatives →
      T.unravel rounds alternatives [] = some (T.splice alternatives))
    (hask : ∀ call, T.Makes (.branches r value) call → ask call = some (T.answer call)) :
    T.performBranches rounds ask r value = some (T.branchesAt r value) := by
  rw [performBranches, branchesAt]
  cases hcheck : T.check r with
  | oneOf alternatives =>
    simp only [branches, branchesBy]
    split
    · next hobject =>
      have hselect : select
          (fun leaf ↦ if T.isObject leaf then some true else ask (.fits leaf value))
          (T.splice alternatives) = some ((T.splice alternatives).filter (T.fits · value)) := by
        refine select_eq_some ?_
        intro leaf hleaf
        split
        · next hleaf =>
          rw [h.fits_eq (Set.mem_univ leaf)]
          cases hcheck : T.check leaf with
          | object => rw [← hobject]
          | kind | literal | regex | arrayOf | oneOf | anything =>
            simp [isObject, Check.isObject, hcheck] at hleaf
        · exact hask (.fits leaf value) (.leaf value hcheck hleaf)
      simp only [hrounds alternatives hcheck, hselect, Option.bind_eq_bind, Option.bind_some]
      refine congrArg some (groupBranches_congr ?_)
      intro leaf hleaf
      simp [hleaf]
    · have hselect : select (fun a ↦ ask (.fits a value)) alternatives =
          some (alternatives.filter (T.fits · value)) :=
        select_eq_some fun a ha ↦ hask (.fits a value) (.alternative value hcheck ha)
      simp only [hselect, Option.bind_eq_bind, Option.bind_some]
      rfl
  | kind | literal | regex | arrayOf | object | anything => rfl

/-! ### Verdicts -/

/-- Between the branches of a disjunction, a choice is made as by the table. -/
theorem performChoice_eq {r : ρ} {alternatives : List ρ} {path : Path} {value : Json}
    (hcheck : T.check r = .oneOf alternatives)
    (hask : ∀ call, T.Makes (.check r path value) call → ask call = some (T.answer call)) :
    performChoice ask alternatives (T.branches alternatives value) path value =
      some (T.failures r path value) := by
  have hlabels (branch : Branch ρ) (hbranch : branch ∈ T.branches alternatives value) :
      performBranchLabels ask branch = some (T.branchLabels branch) := by
    cases branch with
    | single only => exact hask (.describe only) (.singleLabels path hcheck hbranch)
    | objects objects => exact hask (.describeAll objects) (.objectsLabels path hcheck hbranch)
  have hsingle (only : ρ) (hbranch : .single only ∈ T.branches alternatives value) :
      ask (.check only path value) = some (T.failures only path value) :=
    hask (.check only path value) (.single path hcheck hbranch)
  have hobjects (objects : List ρ) (hbranch : .objects objects ∈ T.branches alternatives value)
      (members : Members) (hvalue : value = .object members) :
      ask (.dispatch (objects.map .ref) path members) =
        some (T.dispatchViews path (objects.map .ref) members) := by
    subst hvalue
    exact hask (.dispatch (objects.map .ref) path members) (.objects path hcheck hbranch)
  rw [h.failures_eq (Set.mem_univ r), hcheck]
  simp only
  generalize T.branches alternatives value = branches at hlabels hsingle hobjects ⊢
  rcases branches with _ | ⟨first, _ | ⟨second, rest⟩⟩
  · have hlabels := hask (.describeAll alternatives) (.alternativesLabels path value hcheck)
    rw [performChoice, hlabels]
    rfl
  · cases first with
    | single only => exact hsingle only List.mem_cons_self
    | objects objects =>
      cases value with
      | object members =>
        have hdispatch := hobjects objects List.mem_cons_self members rfl
        rw [dispatchViews, alternativesOf, List.map_map] at hdispatch
        rw [performChoice, hdispatch]
        rfl
      | null | bool | integer | float | string | array => rfl
  · have hlabels : (first :: second :: rest).mapM (performBranchLabels ask) =
        some ((first :: second :: rest).map T.branchLabels) := mapM_eq_some hlabels
    cases first <;> simp only [performChoice, hlabels] <;> rfl

theorem performCheck_eq {r : ρ} {path : Path} {value : Json}
    (hask : ∀ call, T.Makes (.check r path value) call → ask call = some (T.answer call)) :
    T.performCheck ask r path value = some (T.failures r path value) := by
  rw [performCheck, h.failures_eq (Set.mem_univ r)]
  cases hcheck : T.check r with
  | arrayOf element =>
    cases value with
    | array items =>
      have hitems : (items.zipIdx.mapM fun entry ↦
          ask (.check element (path.item entry.2) entry.1)) =
            some (items.zipIdx.map fun entry ↦ T.failures element (path.item entry.2) entry.1) :=
        mapM_eq_some fun entry hentry ↦ by
          exact hask (.check element (path.item entry.2) entry.1)
            (.item entry.2 hcheck (List.fst_mem_of_mem_zipIdx hentry))
      simp only [hitems, Option.bind_eq_bind, Option.bind_some, List.flatMap_def]
      rfl
    | null | bool | integer | float | string | object => rfl
  | object clauses =>
    cases value with
    | object members =>
      have htake := hask (.take (.view (.group clauses)) path members)
        (.members path members hcheck)
      simp only [htake]
      rfl
    | null | bool | integer | float | string | array => rfl
  | oneOf alternatives =>
    have hbranches := hask (.branches r value) (.branches path value hcheck)
    rw [answer, branchesAt, hcheck] at hbranches
    have hchoice := performChoice_eq h hcheck hask
    rw [h.failures_eq (Set.mem_univ r), hcheck] at hchoice
    simp only [hbranches]
    exact hchoice
  | regex => cases value <;> rfl
  | kind | literal | anything => rfl

/-! ### Openings -/

theorem performFirstNames_eq {part : Part ρ}
    (hask : ∀ call, T.Makes (.firstNames part) call → ask call = some (T.answer call)) :
    T.performFirstNames ask part = some (T.partFirstNames part) := by
  have hwithin {part' : Part ρ} (hpart : part'.Within T part) :
      ask (.firstNames part') = some (T.partFirstNames part') :=
    hask (.firstNames part') (.firstNames hpart)
  rw [performFirstNames, partFirstNames_eq h]
  have hexpands := T.expands part
  generalize T.expand part = expanded at hexpands ⊢
  cases expanded with
  | leaf clause =>
    cases hexpands with
    | named | many => rfl
    | optional group => exact hwithin (.optional group)
  | sequence clauses =>
    have hnames : (leading clauses).mapM (fun clause ↦ ask (.firstNames (.clause clause))) =
        some ((leading clauses).map fun clause ↦ T.partFirstNames (.clause clause)) :=
      mapM_eq_some fun clause hclause ↦
        hwithin (.sequence hexpands (leading_subset clauses hclause))
    simp only [hnames]
    rfl
  | alternatives views =>
    have hnames : views.mapM (fun view ↦ ask (.firstNames (.view view))) =
        some (views.map T.firstNames) :=
      mapM_eq_some fun view hview ↦
        hwithin (.alternative hexpands hview)
    simp only [hnames]
    rfl
  | nothing => rfl

theorem performFirstChecks_eq {part : Part ρ} {name : String}
    (hask : ∀ call, T.Makes (.firstChecks part name) call → ask call = some (T.answer call)) :
    T.performFirstChecks ask part name = some (T.partFirstChecks name part) := by
  have hwithin {part' : Part ρ} (hpart : part'.Within T part) :
      ask (.firstChecks part' name) = some (T.partFirstChecks name part') :=
    hask (.firstChecks part' name) (.firstChecks name hpart)
  rw [performFirstChecks, partFirstChecks_eq h]
  have hexpands := T.expands part
  generalize T.expand part = expanded at hexpands ⊢
  cases expanded with
  | leaf clause =>
    cases hexpands with
    | named | many => rfl
    | optional group => exact hwithin (.optional group)
  | sequence clauses =>
    have hchecks : (leading clauses).mapM (fun clause ↦ ask (.firstChecks (.clause clause) name)) =
        some ((leading clauses).map fun clause ↦ T.partFirstChecks name (.clause clause)) :=
      mapM_eq_some fun clause hclause ↦
        hwithin (.sequence hexpands (leading_subset clauses hclause))
    simp only [hchecks]
    rfl
  | alternatives views =>
    have hchecks : views.mapM (fun view ↦ ask (.firstChecks (.view view) name)) =
        some (views.map (T.firstChecks name)) :=
      mapM_eq_some fun view hview ↦
        hwithin (.alternative hexpands hview)
    simp only [hchecks]
    rfl
  | nothing => rfl

theorem performOpens_eq {part : Part ρ} {name : String} {value : Json}
    (hask : ∀ call, T.Makes (.opens part name value) call → ask call = some (T.answer call)) :
    T.performOpens ask part name value = some (T.partOpens name value part) := by
  have hwithin {part' : Part ρ} (hpart : part'.Within T part) :
      ask (.opens part' name value) = some (T.partOpens name value part') :=
    hask (.opens part' name value) (.opens name value hpart)
  rw [performOpens, partOpens_eq h]
  have hexpands := T.expands part
  generalize T.expand part = expanded at hexpands ⊢
  cases expanded with
  | leaf clause =>
    cases hexpands with
    | named own target =>
      have hfits := hask (.fits target value) (.opensValue own target name value)
      simp only [hfits]
      change _ = some (own == name && T.fits target value)
      cases own == name <;> rfl
    | optional group => exact hwithin (.optional group)
    | many => rfl
  | sequence clauses =>
    refine anyM_eq_some ?_
    intro clause hclause
    have hpart : (Part.clause clause).Within T part :=
      .sequence hexpands (leading_subset clauses hclause)
    have hnames := hask (.firstNames (.clause clause)) (.opensNames name value hpart)
    simp only [hnames, hwithin hpart, Option.bind_eq_bind, Option.bind_some]
    split
    · rfl
    -- The test by names changes nothing, since what opens a clause is one of its first names.
    · next hmem =>
      have hopens : T.partOpens name value (.clause clause) ≠ true := fun hopens ↦
        hmem (clause.mem_firstNames_of_opens (fun _ ↦ mem_firstNamesWithin_of_opens) hopens)
      rw [Bool.eq_false_iff.2 hopens]
      rfl
  | alternatives views =>
    have hopened : select (fun view ↦ ask (.opens (.view view) name value)) views =
        some (views.filter (T.opens name value)) :=
      select_eq_some fun view hview ↦
        hwithin (.alternative hexpands hview)
    simp only [hopened, List.countP_eq_length_filter]
    rfl
  | nothing => rfl

/-! ### Taking members -/

omit h in
/-- Clauses take members one by one, each from what those before it have left. -/
theorem foldlM_take_eq {path : Path} {members : Members} {clauses : List (Clause ρ)}
    (htake : ∀ clause ∈ clauses, ∀ rest : Members, rest.Sublist members →
      ask (.take (.clause clause) path rest) = some (T.takePart path (.clause clause) rest))
    {outcome : Outcome} (hrest : outcome.rest.Sublist members) :
    clauses.foldlM (fun outcome clause ↦ do
      let next ← ask (.take (.clause clause) path outcome.rest)
      return ⟨next.rest, outcome.failures ++ next.failures⟩) outcome =
        some (outcome.andThen (T.takeView T.failures path (.group clauses))) := by
  induction clauses generalizing outcome with
  | nil => simp [Outcome.andThen, takeView, takeGroup, Outcome.keep]
  | cons clause clauses ih =>
    have hclause := htake clause List.mem_cons_self outcome.rest hrest
    have hsub : (T.takePart path (.clause clause) outcome.rest).rest.Sublist outcome.rest :=
      takeClause_rest_sublist (fun _ members ↦ takeTargetWithin_rest_sublist members)
        clause outcome.rest
    let next : Outcome := outcome.andThen (T.takePart path (.clause clause))
    have hnext : next.rest.Sublist members := hsub.trans hrest
    rw [List.foldlM_cons, hclause]
    refine (ih (fun clause h ↦ htake clause (List.mem_cons_of_mem _ h)) hnext).trans ?_
    simp only [next, Outcome.andThen, takeView, takeGroup, takePart, List.append_assoc]

theorem performTake_eq {part : Part ρ} {path : Path} {members : Members}
    (hask : ∀ call, T.Makes (.take part path members) call → ask call = some (T.answer call)) :
    T.performTake ask part path members = some (T.takePart path part members) := by
  rw [performTake, takePart_eq h]
  have hexpands := T.expands part
  generalize T.expand part = expanded at hexpands ⊢
  cases expanded with
  | leaf clause =>
    cases hexpands with
    | named name target =>
      simp only [takePart, takeClause]
      cases hlookup : members.lookup name with
      | none => rfl
      | some value =>
        have hvalue := hask (.check target (path.member name) value) (.named target path hlookup)
        simp only [hvalue]
        rfl
    | optional group =>
      have hnames := hask (.firstNames (.view (.group group)))
        (.takeNames path members (.optional group))
      have htake := hask (.take (.view (.group group)) path members)
        (.take path (.optional group) (.refl members))
      simp only [hnames, htake, takePart, takeClause, Option.bind_eq_bind, Option.bind_some]
      split
      · next hempty => exact congrArg some (if_pos hempty).symm
      · next hempty => exact congrArg some (if_neg hempty).symm
    | many target =>
      have hmembers : members.mapM (fun member ↦
          ask (.check target (path.member member.1) member.2)) =
            some (members.map fun member ↦ T.failures target (path.member member.1) member.2) :=
        mapM_eq_some fun member hmember ↦
          hask (.check target (path.member member.1) member.2) (.many target path hmember)
      simp only [hmembers, takePart, takeClause, List.flatMap_def]
      rfl
  | sequence clauses =>
    refine foldlM_take_eq (?_) (.refl members)
    intro clause hclause rest hrest
    exact hask (.take (.clause clause) path rest)
      (.take path (.sequence hexpands hclause) hrest)
  | alternatives views =>
    exact hask (.dispatch views path members) (.dispatch path members hexpands)
  | nothing => rfl

omit h in
/-- A choice between views is made as by the table, if the questions about the views are answered
rightly. -/
theorem performDispatch_eq_of_asks {views : List (View ρ)} {path : Path} {members : Members}
    (hnames : ∀ view ∈ views, ask (.firstNames (.view view)) = some (T.firstNames view))
    (hchecks : ∀ name, ∀ view ∈ views,
      ask (.firstChecks (.view view) name) = some (T.firstChecks name view))
    (hdescribe : ∀ name, ∀ view ∈ views, ask (.describeAll (T.firstChecks name view)) =
      some (T.labelsOf (T.firstChecks name view)))
    (hopens : ∀ name value, members.lookup name = some value → ∀ view ∈ views,
      ask (.opens (.view view) name value) = some (T.opens name value view))
    (htake : ∀ view ∈ views,
      ask (.take (.view view) path members) = some (T.takeView T.failures path view members)) :
    performDispatch ask views path members =
      some (T.dispatchViews path views members) := by
  have hpresent : (views.mapM fun view ↦ do
      let names ← ask (.firstNames (.view view))
      return (view, names.filter fun name ↦ (members.lookup name).isSome)) =
        some (views.map fun view ↦ (view, T.present view members)) :=
    mapM_eq_some fun view hview ↦ by
      rw [hnames view hview]
      rfl
  let candidates := views.filter fun view ↦ !(T.present view members).isEmpty
  have hmem {view : View ρ} (hview : view ∈ candidates) : view ∈ views :=
    List.mem_of_mem_filter hview
  have hcandidates : ((views.map fun view ↦ (view, T.present view members)).filter
      fun entry ↦ !entry.2.isEmpty).map Prod.fst = candidates := by
    rw [List.filter_map, List.map_map]
    exact List.map_id candidates
  have halternatives : (alternativesOf (T.takeView T.failures path) views).filter
      (fun a ↦ !(T.present a.view members).isEmpty) =
        alternativesOf (T.takeView T.failures path) candidates :=
    filter_alternativesOf _ views fun view ↦ !(T.present view members).isEmpty
  have hopening {views' : List (View ρ)} (hsub : ∀ view ∈ views', view ∈ views) :=
    performOpeningLabels_eq (T.takeView T.failures path) fun view hview ↦
      hnames view (hsub view hview)
  have hvalue {views' : List (View ρ)} (hsub : ∀ view ∈ views', view ∈ views) (name : String) :=
    performValueLabels_eq (T.takeView T.failures path) (fun view hview ↦
      hchecks name view (hsub view hview)) fun view hview ↦ hdescribe name view (hsub view hview)
  rw [performDispatch, hpresent, dispatchViews, dispatch, halternatives, present_alternativesOf]
  simp only [Option.bind_eq_bind, Option.bind_some, hcandidates, List.map_map, Function.comp_def]
  rcases (LabelSet.unions (views.map fun view ↦ T.present view members)).toList with
    _ | ⟨name, _ | ⟨second, rest⟩⟩
  · simp only [hopening fun _ h ↦ h]
    rfl
  · cases hlookup : members.lookup name with
    | none =>
      simp only [hlookup]
      rfl
    | some value =>
      have hmatching : select (fun view ↦ ask (.opens (.view view) name value)) candidates =
          some (candidates.filter (T.opens name value)) :=
        select_eq_some fun view hview ↦ hopens name value hlookup view (hmem hview)
      have hsub : ∀ view ∈ candidates.filter (T.opens name value), view ∈ views :=
        fun view hview ↦ hmem (List.mem_of_mem_filter hview)
      simp only [hlookup, hmatching, Option.bind_some, dispatchByValue,
        filter_alternativesOf _ candidates (T.opens name value)]
      generalize candidates.filter (T.opens name value) = matching at hsub
      rcases matching with _ | ⟨first, _ | ⟨second, rest⟩⟩
      · simp only [hvalue (fun _ h ↦ hmem h) name]
        rfl
      · exact htake first (hsub first List.mem_cons_self)
      · simp only [hvalue hsub name]
        rfl
  · simp only [hopening fun _ h ↦ hmem h]
    rfl

omit h in
theorem performDispatch_eq {views : List (View ρ)} {path : Path} {members : Members}
    (hask : ∀ call, T.Makes (.dispatch views path members) call →
      ask call = some (T.answer call)) :
    performDispatch ask views path members =
      some (T.dispatchViews path views members) := by
  refine performDispatch_eq_of_asks (fun view hview ↦ ?_) (fun name view hview ↦ ?_)
    (fun name view hview ↦ ?_) (fun name value hlookup view hview ↦ ?_) fun view hview ↦ ?_
  · exact hask (.firstNames (.view view)) (.viewNames path members hview)
  · exact hask (.firstChecks (.view view) name) (.viewChecks path members name hview)
  · exact hask (.describeAll (T.firstChecks name view)) (.viewLabels path members name hview)
  · exact hask (.opens (.view view) name value) (.viewOpens path hview hlookup)
  · exact hask (.take (.view view) path members) (.viewTake path members hview)

/-! ### All calls -/

/-- A function called yields the right answer if the calls that it makes are answered rightly. -/
theorem perform_eq_of_makes
    (hrounds : ∀ r alternatives, T.check r = .oneOf alternatives →
      T.unravel rounds alternatives [] = some (T.splice alternatives))
    {call : Call ρ} (hask : ∀ call', T.Makes call call' → ask call' = some (T.answer call')) :
    T.perform rounds ask call = some (T.answer call) := by
  cases call with
  | check r path value => exact performCheck_eq h hask
  | fits r value => exact performFits_eq h hask
  | branches r value => exact performBranches_eq h (hrounds r) hask
  | describe r => exact performDescribe_eq h hask
  | describeAll rs =>
    have hlabels : rs.mapM (fun r ↦ ask (.describe r)) = some (rs.map T.labels) :=
      mapM_eq_some fun r hr ↦ hask (.describe r) (.labels hr)
    simp only [perform, hlabels]
    rfl
  | firstNames part => exact performFirstNames_eq h hask
  | firstChecks part name => exact performFirstChecks_eq h hask
  | opens part name value => exact performOpens_eq h hask
  | take part path members => exact performTake_eq h hask
  | dispatch views path members => exact performDispatch_eq hask

variable (hsize : ∀ r, (T.check r).size + 2 ≤ bound)

include hsize

/-- A function called yields the right answer if the calls below it are answered rightly. -/
theorem perform_eq
    (hrounds : ∀ r alternatives, T.check r = .oneOf alternatives →
      T.unravel rounds alternatives [] = some (T.splice alternatives))
    {call : Call ρ} (hask : ∀ call' : Call ρ, call'.Below T rank bound call →
      ask call' = some (T.answer call')) :
    T.perform rounds ask call = some (T.answer call) :=
  perform_eq_of_makes h hrounds fun call' hmakes ↦ hask call' (hmakes.below h hsize)

/-- Calls are answered over as many levels as their index, if those of a kind, which make calls of
this kind only, are answered by performing them. -/
theorem answers_eq {P : Call ρ → Prop} (answers : Nat → (call : Call ρ) → Option call.Answer)
    (hrounds : ∀ r alternatives, T.check r = .oneOf alternatives →
      T.unravel rounds alternatives [] = some (T.splice alternatives))
    (hclosed : ∀ call call', P call → T.Makes call call' → P call')
    (hstep : ∀ levels call, P call →
      answers (levels + 1) call = T.perform rounds (answers levels) call)
    {top : Nat} (hrank : ∀ r, rank r < top) {levels : Nat} {call : Call ρ} (hP : P call)
    (hcall : call.size T ≤ bound) (hlevels : call.index T rank top bound < levels) :
    answers levels call = some (T.answer call) := by
  induction levels generalizing call with
  | zero => exact absurd hlevels (Nat.not_lt_zero _)
  | succ levels ih =>
    rw [hstep levels call hP]
    refine perform_eq_of_makes h hrounds ?_
    intro call' hmakes
    have hbelow := hmakes.below h hsize
    have hcall' : call'.size T ≤ bound := hbelow.size_le.trans (max_le le_rfl hcall)
    have hlt := Call.index_lt_index hbelow.measure_lt (call'.rankBy_le hrank) hcall'
    exact ih (hclosed call call' hP hmakes) hcall' (hlt.trans_le (Nat.lt_succ_iff.1 hlevels))

/-- A call is answered over as many levels as its index. -/
theorem run_eq
    (hrounds : ∀ r alternatives, T.check r = .oneOf alternatives →
      T.unravel rounds alternatives [] = some (T.splice alternatives))
    {top : Nat} (hrank : ∀ r, rank r < top) {levels : Nat} {call : Call ρ}
    (hcall : call.size T ≤ bound) (hlevels : call.index T rank top bound < levels) :
    T.run rounds levels call = some (T.answer call) :=
  answers_eq (P := fun _ ↦ True) h hsize (T.run rounds) hrounds (fun _ _ _ _ ↦ trivial)
    (fun _ _ _ ↦ rfl) hrank trivial hcall hlevels

end Perform

end Table

end JsonPattern
