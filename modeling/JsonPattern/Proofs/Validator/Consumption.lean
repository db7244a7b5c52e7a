import JsonPattern.Proofs.Validator.Accounting
import JsonPattern.Proofs.Validator.Origins

/-!
# The member that leads

Where one name alone is present of those that may open a part, the member of that name leads, and
the part uses it up, whether it finds it right or wrong. A list of clauses hands it to the first of
its leading clauses that the name may open: those before it are optional groups, which none of the
members that are there may open, so they take nothing. A choice between views either uses it up
where it cannot choose by its value, or hands it to the view that it opens, which is led by it in
turn. Where no name leads, or several names are present, a choice takes nothing.
-/

namespace JsonPattern

/-- A set without repeats has one element alone if it is listed so. -/
theorem LabelSet.toList_eq_singleton_iff {s : LabelSet} {a : String} :
    s.toList = [a] ↔ ∀ b, b ∈ s ↔ b = a := by
  constructor
  · intro h b
    rw [← mem_toList, h, List.mem_singleton]
  · intro h
    have hperm : s.toList.Perm [a] :=
      (List.perm_ext_iff_of_nodup s.nodup (List.nodup_singleton a)).2 fun b ↦ by
        rw [mem_toList, h, List.mem_singleton]
    exact List.perm_singleton.1 hperm

variable {ρ : Type}

namespace Table

/-- The names that may open a part and are present among the members. -/
def partPresent (T : Table ρ) (part : Part ρ) (members : Members) : LabelSet :=
  (T.partFirstNames part).filter fun name ↦ (members.lookup name).isSome

/-- One name alone is present of those that may open a part. -/
def Leads (T : Table ρ) (part : Part ρ) (members : Members) (name : String) : Prop :=
  ∀ other, other ∈ T.partPresent part members ↔ other = name

variable {T : Table ρ} {path : Path} {part part' : Part ρ} {members : Members} {name : String}
  {value : Json} {views : List (View ρ)}

theorem mem_partPresent {other : String} : other ∈ T.partPresent part members ↔
    other ∈ T.partFirstNames part ∧ (members.lookup other).isSome :=
  LabelSet.mem_filter

theorem Leads.mem_firstNames (hleads : T.Leads part members name) :
    name ∈ T.partFirstNames part :=
  (mem_partPresent.1 ((hleads name).2 rfl)).1

theorem Leads.exists_lookup (hleads : T.Leads part members name) :
    ∃ value, members.lookup name = some value :=
  Option.isSome_iff_exists.1 (mem_partPresent.1 ((hleads name).2 rfl)).2

/-- A name that leads to a part leads to what is met in it, if it may open that. -/
theorem Leads.mono (hleads : T.Leads part members name)
    (hsub : ∀ other ∈ T.partFirstNames part', other ∈ T.partFirstNames part)
    (hname : name ∈ T.partFirstNames part') : T.Leads part' members name := by
  intro other
  constructor
  · intro hother
    obtain ⟨hother, hsome⟩ := mem_partPresent.1 hother
    exact (hleads other).1 (mem_partPresent.2 ⟨hsub other hother, hsome⟩)
  · rintro rfl
    exact mem_partPresent.2 ⟨hname, (mem_partPresent.1 ((hleads other).2 rfl)).2⟩

/-! ### Lists of clauses -/

theorem mem_firstNames_cons {other : String} {clause : Clause ρ} {group : List (Clause ρ)} :
    other ∈ T.firstNames (.group (clause :: group)) ↔ other ∈ T.partFirstNames (.clause clause) ∨
      clause.isOptional = true ∧ other ∈ T.firstNames (.group group) := by
  have hcons : T.firstNames (.group (clause :: group)) = if clause.isOptional then
      T.partFirstNames (.clause clause) ∪ T.firstNames (.group group)
      else T.partFirstNames (.clause clause) := rfl
  rw [hcons]
  split
  · next hoptional => simp [hoptional]
  · next hoptional => simp [hoptional]

variable [DecidableEq ρ]

/-- An optional group that no member may open takes nothing. -/
theorem takePart_optional_of_forall_notMem {group : List (Clause ρ)}
    (h : ∀ other, other ∉ T.partPresent (.clause (.optional group)) members) :
    T.takePart path (.clause (.optional group)) members = .keep members := by
  have hempty : (T.present (.group group) members).isEmpty = true := LabelSet.isEmpty_iff.2 h
  rw [takePart, takeClause, if_pos hempty]

/-- A list of clauses uses up the member that leads, if each clause does. -/
theorem notMem_rest_group {clauses : List (Clause ρ)}
    (hclauses : ∀ clause ∈ clauses, ∀ members, T.Leads (.clause clause) members name →
      name ∉ (T.takePart path (.clause clause) members).rest.names)
    (hleads : T.Leads (.view (.group clauses)) members name) :
    name ∉ (T.takePart path (.view (.group clauses)) members).rest.names := by
  induction clauses with
  | nil => exact absurd hleads.mem_firstNames LabelSet.not_mem_empty
  | cons clause group ih =>
    have hrest : T.takePart path (.view (.group (clause :: group))) members =
        (T.takePart path (.clause clause) members).andThen
          (T.takePart path (.view (.group group))) := rfl
    rw [hrest]
    by_cases hown : name ∈ T.partFirstNames (.clause clause)
    · -- The clause is the one that the name may open; those after it take from what it leaves.
      have hclause := hclauses clause List.mem_cons_self members
        (hleads.mono (fun _ hother ↦ mem_firstNames_cons.2 (.inl hother)) hown)
      exact fun hmem ↦ hclause
        ((Members.names_sublist (takePart_rest_sublist path _ _)).subset hmem)
    · -- The clause is an optional group, which no member may open.
      obtain ⟨hoptional, hlater⟩ :=
        (mem_firstNames_cons.1 hleads.mem_firstNames).resolve_left hown
      cases clause with
      | optional inner =>
        have hkeep : T.takePart path (.clause (.optional inner)) members = .keep members := by
          refine takePart_optional_of_forall_notMem fun other hother ↦ hown ?_
          obtain ⟨hother, hsome⟩ := mem_partPresent.1 hother
          have hname := (hleads other).1
            (mem_partPresent.2 ⟨mem_firstNames_cons.2 (.inl hother), hsome⟩)
          exact hname ▸ hother
        rw [hkeep]
        exact ih (fun clause hclause ↦ hclauses clause (List.mem_cons_of_mem _ hclause))
          (hleads.mono (fun _ hother ↦ mem_firstNames_cons.2 (.inr ⟨hoptional, hother⟩)) hlater)
      | named | many | flatten | oneOf => cases hoptional

/-! ### Choices between views -/

/-- The name that decides between views leads to the view that its value opens. -/
theorem Decides.leads (hdecides : T.Decides views members name value) {view : View ρ}
    (hview : view ∈ views) (hopens : T.opens name value view = true) :
    T.Leads (.view view) members name := by
  intro other
  constructor
  · exact hdecides.eq_of_mem view hview other
  · rintro rfl
    exact mem_partPresent.2 ⟨mem_firstNames_of_opens hopens, by rw [hdecides.lookup_eq]; rfl⟩

/-- A choice between views uses up the member that decides, if each view does. -/
theorem notMem_rest_dispatchViews
    (hviews : ∀ view ∈ views, T.Leads (.view view) members name →
      name ∉ (T.takePart path (.view view) members).rest.names)
    (hnames : (T.presentNames views members).toList = [name]) :
    name ∉ (T.dispatchViews path views members).rest.names := by
  have hdispatched := T.dispatchedViews path views members
  generalize T.dispatchViews path views members = outcome at hdispatched ⊢
  cases hdispatched with
  | closed hother | torn hother =>
    rw [hnames] at hother
    cases hother
  | unmatched hname hdecides _ | claimed hname hdecides _ =>
    obtain rfl := List.singleton_inj.1 (hnames.symm.trans hname)
    exact members.notMem_names_without name
  | @chosen other value winner hname hdecides hfilter =>
    obtain rfl := List.singleton_inj.1 (hnames.symm.trans hname)
    obtain ⟨hwinner, hopens⟩ := List.mem_filter.1 (hfilter ▸ List.mem_singleton_self winner)
    exact hviews winner hwinner (hdecides.leads hwinner hopens)

/-- Where no name decides, a choice between views takes nothing, and meets one failure, where it
stands. -/
theorem dispatchViews_of_length_ne_one
    (hlength : (T.presentNames views members).toList.length ≠ 1) :
    ∃ failure, T.dispatchViews path views members = ⟨members, [failure]⟩ ∧
      failure.path = path := by
  have hdispatched := T.dispatchedViews path views members
  generalize T.dispatchViews path views members = outcome at hdispatched
  cases hdispatched with
  | closed | torn => exact ⟨_, rfl, rfl⟩
  | unmatched hname | chosen hname | claimed hname =>
    exact absurd (congrArg List.length hname) hlength

/-! ### Parts -/

section Parts

variable {rank : ρ → Nat} {bound : Nat} (h : T.Ranked Set.univ rank)
  (hsize : ∀ r, (T.check r).size + 2 ≤ bound)

include h hsize

/-- A part uses up the member that leads. -/
theorem Ranked.notMem_rest_of_leads (path : Path) (part : Part ρ) (members : Members)
    (hleads : T.Leads part members name) : name ∉ (T.takePart path part members).rest.names := by
  induction part using h.part_induction hsize generalizing members with
  | step part ih =>
    have hnames := partFirstNames_eq h part
    have hexpands := T.expands part
    rw [takePart_eq h]
    cases hexpand : T.expand part with
    | leaf clause =>
      rw [hexpand] at hexpands
      cases hexpands with
      | named own target =>
        obtain rfl : name = own := LabelSet.mem_singleton.1 hleads.mem_firstNames
        obtain ⟨value, hlookup⟩ := hleads.exists_lookup
        simp only [takePart, takeClause, hlookup]
        exact members.notMem_names_without name
      | optional group =>
        have hpresent : (T.present (.group group) members).isEmpty = false :=
          LabelSet.isEmpty_eq_false_iff.2 ⟨name, (hleads name).2 rfl⟩
        simp only [takePart, takeClause, hpresent, Bool.false_eq_true, if_false]
        exact ih _ (.optional group) members hleads
      | many target => exact absurd hleads.mem_firstNames LabelSet.not_mem_empty
    | sequence clauses =>
      rw [hexpand] at hnames hexpands
      have hgroup : T.partFirstNames part = T.partFirstNames (.view (.group clauses)) :=
        hnames.trans (groupFirstNames_eq_unions clauses).symm
      exact notMem_rest_group (fun clause hclause ↦ ih _ (.sequence hexpands hclause))
        (hleads.mono (fun _ hother ↦ hgroup ▸ hother) (hgroup ▸ hleads.mem_firstNames))
    | alternatives views =>
      rw [hexpand] at hnames hexpands
      have hpresent (other : String) :
          other ∈ T.presentNames views members ↔ other ∈ T.partPresent part members := by
        rw [mem_partPresent, hnames, mem_presentNames, LabelSet.mem_unions]
        simp only [mem_present, List.mem_map, exists_exists_and_eq_and, ← and_assoc,
          exists_and_right]
      exact notMem_rest_dispatchViews
        (fun view hview ↦ ih _ (.alternative hexpands hview) members)
        (LabelSet.toList_eq_singleton_iff.2 fun other ↦ (hpresent other).trans (hleads other))
    | nothing =>
      rw [hexpand] at hnames
      exact absurd (hnames ▸ hleads.mem_firstNames) LabelSet.not_mem_empty

end Parts

end Table

end JsonPattern
