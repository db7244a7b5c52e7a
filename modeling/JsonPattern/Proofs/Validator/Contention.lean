import JsonPattern.Proofs.Validator.Origins

/-!
# What stands behind an ambiguity

An ambiguity is raised at three places, which count different things. A disjunction counts branches:
against an object these are made of leaves, each taken once, against any other value they are the
alternatives, each position of the list by itself. A choice between views counts names first, and
these may open two views or, by the optional groups at its start, a single one; then it counts the
views that the one name opens by its value, again each position by itself. So what is counted twice
may be a single alternative. `Table.Contested` says what is known of the alternatives in each case.
-/

namespace JsonPattern

namespace Table

variable {ρ : Type} {T : Table ρ}

/-! ### Counting -/

/-- Elements that pass a test and are two at least stand at different positions. -/
theorem exists_positions_of_two_le {α : Type} {p : α → Bool} {as : List α}
    (h : 2 ≤ (as.filter p).length) : ∃ (i j : Nat) (a b : α), i ≠ j ∧
      as[i]? = some a ∧ as[j]? = some b ∧ p a = true ∧ p b = true := by
  induction as with
  | nil => simp at h
  | cons c as ih =>
    by_cases hc : p c = true
    · rw [List.filter_cons_of_pos hc, List.length_cons] at h
      obtain ⟨b, hb⟩ := List.exists_mem_of_length_pos (l := as.filter p) (by omega)
      obtain ⟨hmem, hb⟩ := List.mem_filter.1 hb
      obtain ⟨j, hj⟩ := List.getElem?_of_mem hmem
      exact ⟨0, j + 1, c, b, (Nat.succ_ne_zero j).symm, rfl, hj, hc, hb⟩
    · rw [List.filter_cons_of_neg hc] at h
      obtain ⟨i, j, a, b, hne, hi, hj, ha, hb⟩ := ih h
      exact ⟨i + 1, j + 1, a, b, by omega, hi, hj, ha, hb⟩

/-! ### Branches -/

theorem flatMap_refs_map_single (rs : List ρ) :
    (rs.map Branch.single).flatMap Branch.refs = rs := by
  induction rs with
  | nil => rfl
  | cons r rs ih => rw [List.map_cons, List.flatMap_cons, ih]; rfl

/-- The branches among leaves refer to the checks of objects, and to the other leaves that fit. -/
theorem flatMap_refs_groupBranches_perm (fits : ρ → Bool) (leaves : List ρ) :
    ((T.groupBranches fits leaves).flatMap Branch.refs).Perm
      (leaves.filter T.isObject ++ leaves.filter fun r ↦ !T.isObject r && fits r) := by
  let single : ρ → Bool := fun r ↦ !T.isObject r && fits r
  have haround (group : Branch ρ) (hgroup : group.refs = leaves.filter T.isObject) :
      ((((leaves.takeWhile fun r ↦ !T.isObject r).filter single).map Branch.single ++
        group :: ((leaves.dropWhile fun r ↦ !T.isObject r).filter single).map
          Branch.single).flatMap Branch.refs).Perm
        (leaves.filter T.isObject ++ leaves.filter single) := by
    rw [List.flatMap_append, List.flatMap_cons, flatMap_refs_map_single, flatMap_refs_map_single,
      hgroup]
    refine List.perm_append_comm_assoc .. |>.trans (.append_left _ (.of_eq ?_))
    rw [← List.filter_append, List.takeWhile_append_dropWhile]
  unfold groupBranches
  split
  · next hnil =>
    rw [hnil, flatMap_refs_map_single]
    exact .refl _
  · next only honly => exact haround (.single only) honly.symm
  · exact haround (.objects (leaves.filter T.isObject)) rfl

theorem refs_ne_nil_of_mem_groupBranches {fits : ρ → Bool} {leaves : List ρ} {branch : Branch ρ}
    (h : branch ∈ T.groupBranches fits leaves) : branch.refs ≠ [] := by
  cases branch with
  | single r => exact List.cons_ne_nil r []
  | objects objects =>
    have hsingle {rs : List ρ} : .objects objects ∉
        (rs.filter fun r ↦ !T.isObject r && fits r).map Branch.single := by simp
    unfold groupBranches at h
    split at h
    · exact absurd h hsingle
    · rcases List.mem_append.1 h with h | h
      · exact absurd h hsingle
      · exact absurd ((List.mem_cons.1 h).resolve_left nofun) hsingle
    · next hnil honly =>
      rcases List.mem_append.1 h with h | h
      · exact absurd h hsingle
      · rcases List.mem_cons.1 h with he | h
        · obtain rfl := Branch.objects.inj he
          exact hnil
        · exact absurd h hsingle

/-- Two branches among different leaves refer to different leaves. -/
theorem exists_leaves_of_two_le {fits : ρ → Bool} {leaves : List ρ} (hnodup : leaves.Nodup)
    (h : 2 ≤ (T.groupBranches fits leaves).length) : ∃ first second, first ≠ second ∧
      (first ∈ leaves ∧ (T.isObject first = true ∨ fits first = true)) ∧
      second ∈ leaves ∧ (T.isObject second = true ∨ fits second = true) := by
  have hperm := flatMap_refs_groupBranches_perm (T := T) fits leaves
  have hmem {r : ρ} (hr : r ∈ (T.groupBranches fits leaves).flatMap Branch.refs) :
      r ∈ leaves ∧ (T.isObject r = true ∨ fits r = true) := by
    rcases List.mem_append.1 (hperm.mem_iff.1 hr) with hr | hr
    · exact ⟨(List.mem_filter.1 hr).1, .inl (List.mem_filter.1 hr).2⟩
    · exact ⟨(List.mem_filter.1 hr).1, .inr (Bool.and_eq_true_iff.1 (List.mem_filter.1 hr).2).2⟩
  have hdistinct : ((T.groupBranches fits leaves).flatMap Branch.refs).Nodup := by
    rw [hperm.nodup_iff, List.nodup_append]
    refine ⟨hnodup.filter _, hnodup.filter _, ?_⟩
    rintro r hobject _ hsingle rfl
    simp [(List.mem_filter.1 hobject).2] at hsingle
  have hne {branch : Branch ρ} (hbranch : branch ∈ T.groupBranches fits leaves) :
      ∃ r, r ∈ branch.refs :=
    List.exists_mem_of_ne_nil _ (refs_ne_nil_of_mem_groupBranches hbranch)
  rcases hbranches : T.groupBranches fits leaves with _ | ⟨branch, _ | ⟨other, rest⟩⟩
  · simp [hbranches] at h
  · simp [hbranches] at h
  · rw [hbranches] at hmem hdistinct hne
    obtain ⟨first, hfirst⟩ := hne List.mem_cons_self
    obtain ⟨second, hsecond⟩ := hne (List.mem_cons_of_mem _ List.mem_cons_self)
    have hsecond' : second ∈ (other :: rest).flatMap Branch.refs :=
      List.mem_append_left _ hsecond
    refine ⟨first, second, ?_, hmem (List.mem_append_left _ hfirst),
      hmem (List.mem_append_right _ hsecond')⟩
    rw [List.flatMap_cons] at hdistinct
    exact (List.nodup_append.1 hdistinct).2.2 first hfirst second hsecond'

variable [DecidableEq ρ]

/-! ### Ambiguities -/

/-- Several alternatives contend for the input of a call, or a single one that is counted twice. -/
inductive Contested (T : Table ρ) : Call ρ → Prop
  /-- An object fits two different leaves below a disjunction. -/
  | leaves {r first second : ρ} {alternatives : List ρ} {members : Members} (path : Path)
      (hcheck : T.check r = .oneOf alternatives) (hne : first ≠ second)
      (hfirst : first ∈ T.splice alternatives) (hsecond : second ∈ T.splice alternatives)
      (hfits : T.fits first (.object members) = true)
      (hfits' : T.fits second (.object members) = true) :
      Contested T (.check r path (.object members))
  /-- Another value fits the alternatives at two positions. -/
  | positions {r first second : ρ} {alternatives : List ρ} {value : Json} (path : Path)
      (hcheck : T.check r = .oneOf alternatives) (hvalue : value.isObject = false) {i j : Nat}
      (hne : i ≠ j) (hi : alternatives[i]? = some first) (hj : alternatives[j]? = some second)
      (hfits : T.fits first value = true) (hfits' : T.fits second value = true) :
      Contested T (.check r path value)
  /-- The views at two positions have a first name that is present. -/
  | openings {views : List (View ρ)} {first second : View ρ} {members : Members} (path : Path)
      {i j : Nat} (hne : i ≠ j) (hi : views[i]? = some first) (hj : views[j]? = some second)
      (hfirst : ∃ name, name ∈ T.present first members)
      (hsecond : ∃ name, name ∈ T.present second members) :
      Contested T (.dispatch views path members)
  /-- The one view with a first name that is present has two of them. -/
  | twice {views : List (View ρ)} {only : View ρ} {members : Members} (path : Path)
      (honly : T.candidates views members = [only]) {first second : String} (hne : first ≠ second)
      (hfirst : first ∈ T.present only members) (hsecond : second ∈ T.present only members) :
      Contested T (.dispatch views path members)
  /-- One name decides, and its value opens the views at two positions. -/
  | values {views : List (View ρ)} {first second : View ρ} {members : Members} {name : String}
      {value : Json} (path : Path) (hdecides : T.Decides views members name value) {i j : Nat}
      (hne : i ≠ j) (hi : views[i]? = some first) (hj : views[j]? = some second)
      (hopens : T.opens name value first = true) (hopens' : T.opens name value second = true) :
      Contested T (.dispatch views path members)

variable {rank : ρ → Nat} {path : Path}

/-- A value that fits two branches of a disjunction is contested. -/
theorem Ranked.contested_of_branches (h : T.Ranked Set.univ rank) {r : ρ} {alternatives : List ρ}
    {value : Json} (hcheck : T.check r = .oneOf alternatives)
    (hbranches : 2 ≤ (T.branches alternatives value).length) :
    T.Contested (.check r path value) := by
  cases hvalue : value.isObject with
  | false =>
    rw [branches, branchesBy, hvalue, if_neg Bool.false_ne_true, List.length_map] at hbranches
    obtain ⟨i, j, first, second, hne, hi, hj, hfirst, hsecond⟩ :=
      exists_positions_of_two_le hbranches
    exact .positions path hcheck hvalue hne hi hj hfirst hsecond
  | true =>
    rw [branches, branchesBy, if_pos hvalue] at hbranches
    obtain ⟨first, second, hne, ⟨hfirst, hfits⟩, hsecond, hfits'⟩ :=
      exists_leaves_of_two_le (splice_nodup alternatives) hbranches
    cases value with
    | object members =>
      have hobject {leaf : ρ} (hleaf : T.isObject leaf = true ∨ T.fits leaf (.object members)) :
          T.fits leaf (.object members) = true := by
        refine hleaf.elim (fun hobject ↦ ?_) id
        obtain ⟨clauses, hcheck⟩ := exists_clauses_of_isObject hobject
        rw [h.fits_eq (Set.mem_univ leaf), hcheck]
        rfl
      exact .leaves path hcheck hne hfirst hsecond (hobject hfits) (hobject hfits')
    | null | bool | integer | float | string | array => cases hvalue

omit [DecidableEq ρ] in
theorem exists_present_of_not_isEmpty {view : View ρ} {members : Members}
    (h : (!(T.present view members).isEmpty) = true) : ∃ name, name ∈ T.present view members := by
  rw [Bool.not_eq_true'] at h
  exact LabelSet.isEmpty_eq_false_iff.1 h

/-- Views among which two names are present are contested. -/
theorem contested_of_presentNames {views : List (View ρ)} {members : Members}
    {first second : String} {rest : List String}
    (hnames : (T.presentNames views members).toList = first :: second :: rest) :
    T.Contested (.dispatch views path members) := by
  have hne : first ≠ second := fun he ↦ by
    have hnodup := (T.presentNames views members).nodup
    rw [hnames] at hnodup
    exact (List.nodup_cons.1 hnodup).1 (he ▸ List.mem_cons_self)
  have hview {name : String} (hname : name ∈ first :: second :: rest) :
      ∃ view ∈ T.candidates views members, name ∈ T.present view members := by
    rw [← hnames] at hname
    obtain ⟨view, hview, hname⟩ := mem_presentNames.1 hname
    exact ⟨view, mem_candidates hview hname, hname⟩
  obtain ⟨view, hmem, hfirst⟩ := hview List.mem_cons_self
  obtain ⟨view', hmem', hsecond⟩ := hview (List.mem_cons_of_mem _ List.mem_cons_self)
  rcases hcandidates : T.candidates views members with _ | ⟨only, _ | ⟨other, others⟩⟩
  · exact absurd (hcandidates ▸ hmem) List.not_mem_nil
  · obtain rfl := List.mem_singleton.1 (hcandidates ▸ hmem)
    obtain rfl := List.mem_singleton.1 (hcandidates ▸ hmem')
    exact .twice path hcandidates hne hfirst hsecond
  · have htwo : 2 ≤ (T.candidates views members).length := by simp [hcandidates]
    obtain ⟨i, j, a, b, hne, hi, hj, ha, hb⟩ := exists_positions_of_two_le htwo
    exact .openings path hne hi hj (exists_present_of_not_isEmpty ha)
      (exists_present_of_not_isEmpty hb)

/-- A call that raises an ambiguity is contested. -/
theorem Ranked.contested_of_raises (h : T.Ranked Set.univ rank) {call : Call ρ} {failure : Failure}
    (hraises : T.Raises call failure) (hambiguity : failure.isAmbiguity = true) :
    T.Contested call := by
  cases hraises with
  | branches path hcheck hbranches => exact h.contested_of_branches hcheck hbranches
  | torn path hnames => exact contested_of_presentNames hnames
  | claimed path hdecides hseveral =>
    obtain ⟨i, j, a, b, hne, hi, hj, ha, hb⟩ := exists_positions_of_two_le hseveral
    exact .values path hdecides hne hi hj ha hb
  | literal =>
    rw [literalFailure] at hambiguity
    split at hambiguity <;> cases hambiguity
  | kind | regex | notString | notArray | notObject | noBranch | leftOver | leftOverOfObjects
    | missing | closed | unmatched => cases hambiguity

end Table

end JsonPattern
