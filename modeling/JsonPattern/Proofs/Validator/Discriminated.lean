import JsonPattern.Proofs.Json.Members
import JsonPattern.Proofs.Pattern.Choices
import JsonPattern.Proofs.Validator.Choice

/-!
# Members taken by a choice

Clauses take members from left to right and look at first names only, while a choice of what is in
force speaks of all clauses at once. Where clauses take members without a failure, they do so by a
choice. Conversely, where clauses are discriminated and no name is repeated, a choice whose members
are there without failures is found: what is in force shows by its first names, an alternation
has exactly one of them among the members, and clauses take no members of each other.

## Main definitions

* `Table.Fulfils` : there is a member for every named clause in force.
* `Table.TakenBy` : members are taken by a choice.

## Main results

* `Table.exists_choice_of_takeGroup` : clauses that take members without a failure do so by a
  choice.
* `Table.Ranked.takenBy_of_mem_groupChoices` : a choice that is fulfilled is found.
* `Table.Ranked.failures_eq_nil_iff_of_discriminated` : an object has no failure if and only if its
  names are those of a choice that is fulfilled.
-/

namespace JsonPattern

variable {ρ : Type}

/-! ### First names in force -/

section Opening

variable {ofTarget : ρ → LabelSet}

mutual

theorem Clause.mem_memberNames_of_firstNames : (clause : Clause ρ) →
    clause.isDiscriminated = true → ∀ name ∈ clause.firstNames ofTarget, name ∈ clause.memberNames
  | .named _ _, _, _, hname => List.mem_singleton.2 (LabelSet.mem_singleton.1 hname)
  | .optional group, hclause, name, hname =>
    mem_memberNames_of_groupFirstNames group hclause name hname
  | .oneOf groups, hclause, name, hname =>
    mem_memberNames_of_groupsFirstNames groups hclause name hname

theorem mem_memberNames_of_groupFirstNames : (group : List (Clause ρ)) →
    groupIsDiscriminated group = true →
    ∀ name ∈ groupFirstNames ofTarget group, name ∈ groupMemberNames group
  | [], _, _, hname => absurd hname LabelSet.not_mem_empty
  | clause :: group, hgroup, name, hname => by
    obtain ⟨hclause, hgroup⟩ := Bool.and_eq_true_iff.1 hgroup
    rw [groupMemberNames, List.mem_append]
    rw [groupFirstNames] at hname
    split at hname
    · exact (LabelSet.mem_union.1 hname).imp
        (clause.mem_memberNames_of_firstNames hclause name)
        (mem_memberNames_of_groupFirstNames group hgroup name)
    · exact .inl (clause.mem_memberNames_of_firstNames hclause name hname)

theorem mem_memberNames_of_groupsFirstNames : (groups : List (List (Clause ρ))) →
    groupsAreDiscriminated groups = true →
    ∀ name ∈ groupsFirstNames ofTarget groups, name ∈ groupsMemberNames groups
  | [], _, _, hname => absurd hname LabelSet.not_mem_empty
  | group :: groups, hgroups, name, hname => by
    obtain ⟨hgroup, hgroups⟩ := Bool.and_eq_true_iff.1 hgroups
    exact List.mem_append.2 ((LabelSet.mem_union.1 hname).imp
      (mem_memberNames_of_groupFirstNames group (Bool.and_eq_true_iff.1 hgroup).2 name)
      (mem_memberNames_of_groupsFirstNames groups hgroups name))

end

/-- Of the names in force, one alone is among given first names. -/
def Choice.OpenedBy (choice : Choice ρ) (names : LabelSet) : Prop :=
  ∃ name ∈ choice.names, ∀ other ∈ choice.names, other ∈ names ↔ other = name

theorem Choice.OpenedBy.exists_mem {choice : Choice ρ} {names : LabelSet}
    (h : choice.OpenedBy names) : ∃ name ∈ choice.names, name ∈ names := by
  obtain ⟨name, hname, hone⟩ := h
  exact ⟨name, hname, (hone name hname).2 rfl⟩

variable (ofTarget)

mutual

/-- A clause that is no optional group is opened by one name, whatever is in force. -/
theorem Clause.openedBy : (clause : Clause ρ) → clause.isDiscriminated = true →
    clause.isOptional = false → clause.memberNames.Nodup → ∀ choice ∈ clause.choices,
      choice.OpenedBy (clause.firstNames ofTarget)
  | .named own value, _, _, _, choice, hchoice => by
    obtain rfl := List.mem_singleton.1 hchoice
    exact ⟨own, List.mem_singleton_self own, fun other _ ↦ LabelSet.mem_singleton⟩
  | .oneOf groups, hclause, _, hnodup, choice, hchoice =>
    groupsOpenedBy groups hclause hnodup choice hchoice

theorem groupOpenedBy : (group : List (Clause ρ)) → groupIsLed group = true →
    groupIsDiscriminated group = true → (groupMemberNames group).Nodup →
    ∀ choice ∈ groupChoices group, choice.OpenedBy (groupFirstNames ofTarget group)
  | clause :: group, hled, hgroup, hnodup, choice, hchoice => by
    have hoptional : clause.isOptional = false := by
      cases clause with
      | optional => cases hled
      | named | many | flatten | oneOf => rfl
    obtain ⟨hclause, hgroup⟩ := Bool.and_eq_true_iff.1 hgroup
    obtain ⟨hnodup, -, hdisjoint⟩ := List.nodup_append.1 hnodup
    obtain ⟨first, hfirst, rest, hrest, rfl⟩ := mem_groupChoices_cons.1 hchoice
    obtain ⟨name, hname, hone⟩ := clause.openedBy hclause hoptional hnodup first hfirst
    have hfirstNames := clause.names_subset first hfirst
    have hrestNames := names_subset_of_groupChoices group rest hrest
    rw [groupFirstNames, hoptional, if_neg Bool.false_ne_true]
    refine ⟨name, ?_, fun other hother ↦ ?_⟩
    · rw [Choice.names_append]
      exact List.mem_append_left _ hname
    · rw [Choice.names_append] at hother
      rcases List.mem_append.1 hother with hother | hother
      · exact hone other hother
      · refine iff_of_false (fun hmem ↦ ?_) fun he ↦ ?_
        · exact hdisjoint other (clause.mem_memberNames_of_firstNames hclause other hmem) other
            (hrestNames hother) rfl
        · exact hdisjoint name (hfirstNames hname) other (hrestNames hother) he.symm

theorem groupsOpenedBy : (groups : List (List (Clause ρ))) → groupsAreDiscriminated groups = true →
    (groupsMemberNames groups).Nodup → ∀ choice ∈ groupsChoices groups,
      choice.OpenedBy (groupsFirstNames ofTarget groups)
  | [], _, _, _, hchoice => absurd hchoice List.not_mem_nil
  | group :: groups, hgroups, hnodup, choice, hchoice => by
    obtain ⟨hgroup, hgroups⟩ := Bool.and_eq_true_iff.1 hgroups
    obtain ⟨hled, hgroup⟩ := Bool.and_eq_true_iff.1 hgroup
    obtain ⟨hnodup, hnodup', hdisjoint⟩ := List.nodup_append.1 hnodup
    rcases List.mem_append.1 hchoice with hchoice | hchoice
    · have hnames := names_subset_of_groupChoices group choice hchoice
      obtain ⟨name, hname, hone⟩ := groupOpenedBy group hled hgroup hnodup choice hchoice
      refine ⟨name, hname, fun other hother ↦ ?_⟩
      rw [groupsFirstNames, LabelSet.mem_union, hone other hother, or_iff_left]
      intro hmem
      exact hdisjoint other (hnames hother) other
        (mem_memberNames_of_groupsFirstNames groups hgroups other hmem) rfl
    · have hnames := names_subset_of_groupsChoices groups choice hchoice
      obtain ⟨name, hname, hone⟩ := groupsOpenedBy groups hgroups hnodup' choice hchoice
      refine ⟨name, hname, fun other hother ↦ ?_⟩
      rw [groupsFirstNames, LabelSet.mem_union, hone other hother, or_iff_right]
      intro hmem
      exact hdisjoint other (mem_memberNames_of_groupFirstNames group hgroup other hmem) other
        (hnames hother) rfl

end

mutual

/-- If anything of a clause is in force, a first name is. -/
theorem Clause.exists_firstName : (clause : Clause ρ) → clause.isDiscriminated = true →
    clause.memberNames.Nodup → ∀ choice ∈ clause.choices, choice ≠ [] →
      ∃ name ∈ choice.names, name ∈ clause.firstNames ofTarget
  | .named own value, hclause, hnodup, choice, hchoice, _ =>
    ((Clause.named own value).openedBy ofTarget hclause rfl hnodup choice hchoice).exists_mem
  | .optional group, hclause, hnodup, choice, hchoice, hne =>
    exists_firstName_of_group group hclause hnodup choice
      ((List.mem_cons.1 hchoice).resolve_left hne) hne
  | .oneOf groups, hclause, hnodup, choice, hchoice, _ =>
    (groupsOpenedBy ofTarget groups hclause hnodup choice hchoice).exists_mem

theorem exists_firstName_of_group : (group : List (Clause ρ)) →
    groupIsDiscriminated group = true → (groupMemberNames group).Nodup →
    ∀ choice ∈ groupChoices group, choice ≠ [] →
      ∃ name ∈ choice.names, name ∈ groupFirstNames ofTarget group
  | [], _, _, choice, hchoice, hne => absurd (List.mem_singleton.1 hchoice) hne
  | clause :: group, hgroup, hnodup, choice, hchoice, hne => by
    obtain ⟨hclause, hgroup⟩ := Bool.and_eq_true_iff.1 hgroup
    obtain ⟨hnodup, hnodup', -⟩ := List.nodup_append.1 hnodup
    obtain ⟨first, hfirst, rest, hrest, rfl⟩ := mem_groupChoices_cons.1 hchoice
    rw [groupFirstNames, Choice.names_append]
    cases hoptional : clause.isOptional with
    | false =>
      obtain ⟨name, hname, hmem⟩ :=
        (clause.openedBy ofTarget hclause hoptional hnodup first hfirst).exists_mem
      exact ⟨name, List.mem_append_left _ hname, hmem⟩
    | true =>
      rw [if_pos rfl]
      by_cases hnil : first = []
      · have hne : rest ≠ [] := fun he ↦ hne (by rw [hnil, he]; rfl)
        obtain ⟨name, hname, hmem⟩ :=
          exists_firstName_of_group group hgroup hnodup' rest hrest hne
        exact ⟨name, List.mem_append_right _ hname, LabelSet.mem_union.2 (.inr hmem)⟩
      · obtain ⟨name, hname, hmem⟩ := clause.exists_firstName hclause hnodup first hfirst hnil
        exact ⟨name, List.mem_append_left _ hname, LabelSet.mem_union.2 (.inl hmem)⟩

end

end Opening

namespace Table

variable [DecidableEq ρ] {T : Table ρ} {path : Path} {members : Members} {choice : Choice ρ}

/-! ### Choices that take members -/

/-- For every named clause in force there is a member, whose value has no failure. -/
def Fulfils (T : Table ρ) (path : Path) (members : Members) (choice : Choice ρ) : Prop :=
  ∀ entry ∈ choice, ∃ part, members.lookup entry.1 = some part ∧
    T.failures entry.2 (path.member entry.1) part = []

theorem Fulfils.lookup_isSome (h : T.Fulfils path members choice) {name : String}
    (hname : name ∈ choice.names) : (members.lookup name).isSome = true := by
  obtain ⟨entry, hentry, rfl⟩ := List.mem_map.1 hname
  obtain ⟨part, hlookup, -⟩ := h entry hentry
  rw [hlookup]
  rfl

/-- A choice is fulfilled, and what is left without a failure is what it leaves. -/
structure TakenBy (T : Table ρ) (path : Path) (members : Members) (outcome : Outcome)
    (choice : Choice ρ) : Prop where
  /-- The members in force are there. -/
  fulfils : T.Fulfils path members choice
  /-- There is no failure. -/
  failures_eq : outcome.failures = []
  /-- The members in force are gone. -/
  rest_eq : outcome.rest = members.outside choice.names

theorem takenBy_keep : T.TakenBy path members (.keep members) [] :=
  ⟨fun _ h ↦ absurd h List.not_mem_nil, rfl, Members.outside_nil.symm⟩

theorem TakenBy.andThen {first : Outcome} {next : Members → Outcome} {rest : Choice ρ}
    (hfirst : T.TakenBy path members first choice)
    (hnext : T.TakenBy path (members.outside choice.names) (next first.rest) rest) :
    T.TakenBy path members (first.andThen next) (choice ++ rest) := by
  refine ⟨fun entry hentry ↦ ?_, ?_, ?_⟩
  · rcases List.mem_append.1 hentry with hentry | hentry
    · exact hfirst.fulfils entry hentry
    · obtain ⟨part, hlookup, hfailures⟩ := hnext.fulfils entry hentry
      exact ⟨part, Members.lookup_of_lookup_outside hlookup, hfailures⟩
  · simp only [Outcome.andThen, hfirst.failures_eq, hnext.failures_eq, List.append_nil]
  · simp only [Outcome.andThen, hnext.rest_eq, Members.outside_outside, Choice.names_append]

/-! ### Soundness -/

mutual

/-- A clause that takes members without a failure takes them by a choice. -/
theorem exists_choice_of_takeClause : (clause : Clause ρ) → clause.isDiscriminated = true →
    (members : Members) →
    (T.takeClause T.failures (T.takeTargetWithin T.failures path T.hops) path clause
      members).failures = [] →
    ∃ choice ∈ clause.choices, T.TakenBy path members
      (T.takeClause T.failures (T.takeTargetWithin T.failures path T.hops) path clause members)
      choice
  | .named name value, _, members, hfailures => by
    refine ⟨[(name, value)], List.mem_singleton_self _, ?_⟩
    rw [takeClause] at hfailures ⊢
    cases hlookup : members.lookup name with
    | none => simp [hlookup] at hfailures
    | some part =>
      simp only [hlookup] at hfailures ⊢
      exact ⟨List.forall_mem_singleton.2 ⟨part, hlookup, hfailures⟩, hfailures,
        Members.without_eq_outside⟩
  | .optional group, hclause, members, hfailures => by
    rw [takeClause] at hfailures ⊢
    split at hfailures
    · next hempty =>
      rw [if_pos hempty]
      exact ⟨[], List.mem_cons_self, takenBy_keep⟩
    · next hpresent =>
      rw [if_neg hpresent]
      obtain ⟨choice, hchoice, htaken⟩ :=
        exists_choice_of_takeGroup group hclause members hfailures
      exact ⟨choice, List.mem_cons_of_mem _ hchoice, htaken⟩
  | .oneOf groups, hclause, members, hfailures => by
    rw [takeClause, takeEither_eq_map] at hfailures ⊢
    obtain ⟨a, ha, htake⟩ := exists_take_of_failures_eq_nil hfailures
    obtain ⟨group, hgroup, rfl⟩ := List.mem_map.1 ha
    rw [htake] at hfailures ⊢
    obtain ⟨choice, hchoice, htaken⟩ :=
      exists_choice_of_takeGroups groups hclause group hgroup members hfailures
    exact ⟨choice, mem_groupsChoices.2 ⟨group, hgroup, hchoice⟩, htaken⟩

theorem exists_choice_of_takeGroup : (group : List (Clause ρ)) →
    groupIsDiscriminated group = true → (members : Members) →
    (T.takeGroup T.failures (T.takeTargetWithin T.failures path T.hops) path group
      members).failures = [] →
    ∃ choice ∈ groupChoices group, T.TakenBy path members
      (T.takeGroup T.failures (T.takeTargetWithin T.failures path T.hops) path group members) choice
  | [], _, _, _ => ⟨[], List.mem_singleton_self _, takenBy_keep⟩
  | clause :: group, hgroup, members, hfailures => by
    obtain ⟨hclause, hgroup⟩ := Bool.and_eq_true_iff.1 hgroup
    obtain ⟨hfirst, hrest⟩ := List.append_eq_nil_iff.1 hfailures
    obtain ⟨first, hfirst, htaken⟩ := exists_choice_of_takeClause clause hclause members hfirst
    obtain ⟨rest, hrest, htaken'⟩ := exists_choice_of_takeGroup group hgroup _ hrest
    refine ⟨first ++ rest, mem_groupChoices_cons.2 ⟨first, hfirst, rest, hrest, rfl⟩, ?_⟩
    refine htaken.andThen ?_
    rwa [htaken.rest_eq] at htaken' ⊢

theorem exists_choice_of_takeGroups : (groups : List (List (Clause ρ))) →
    groupsAreDiscriminated groups = true → ∀ group ∈ groups, (members : Members) →
    (T.takeGroup T.failures (T.takeTargetWithin T.failures path T.hops) path group
      members).failures = [] →
    ∃ choice ∈ groupChoices group, T.TakenBy path members
      (T.takeGroup T.failures (T.takeTargetWithin T.failures path T.hops) path group members) choice
  | [], _, _, hgroup, _, _ => absurd hgroup List.not_mem_nil
  | first :: groups, hgroups, group, hgroup, members, hfailures => by
    obtain ⟨hfirst, hgroups⟩ := Bool.and_eq_true_iff.1 hgroups
    have hfirst := exists_choice_of_takeGroup first (Bool.and_eq_true_iff.1 hfirst).2 members
    rcases List.mem_cons.1 hgroup with he | hgroup
    · exact he ▸ hfirst (he ▸ hfailures)
    · exact exists_choice_of_takeGroups groups hgroups group hgroup members hfailures

end

/-! ### Completeness -/

/-- Of the given names, only those in force are names of members. -/
def Within (members : Members) (names : List String) (choice : Choice ρ) : Prop :=
  ∀ name ∈ names, name ∈ members.names → name ∈ choice.names

/-- If a choice of one of several groups is fulfilled, one name decides between the groups, and it
is a first name of this group. -/
theorem exists_decides_of_fulfils {groups : List (List (Clause ρ))} {group : List (Clause ρ)}
    (hgroups : groupsAreDiscriminated groups = true) (hnodup : (groupsMemberNames groups).Nodup)
    (hgroup : group ∈ groups) (hchoice : choice ∈ groupChoices group)
    (hwithin : Within members (groupsMemberNames groups) choice)
    (hfulfils : T.Fulfils path members choice) :
    ∃ name value, T.Decides (groups.map .group) members name value ∧
      name ∈ T.present (.group group) members := by
  obtain ⟨hled, hdiscriminated⟩ := groupsAreDiscriminated_iff.1 hgroups group hgroup
  obtain ⟨name, hname, hone⟩ := groupsOpenedBy (T.firstNamesWithin T.hops) groups hgroups
    hnodup choice (mem_groupsChoices.2 ⟨group, hgroup, hchoice⟩)
  obtain ⟨value, hlookup⟩ := Option.isSome_iff_exists.1 (hfulfils.lookup_isSome hname)
  have hpresent {other : List (Clause ρ)} (hother : other ∈ groups) :
      ∀ own ∈ T.present (.group other) members, own = name := by
    intro own hown
    obtain ⟨hfirst, hsome⟩ := mem_present.1 hown
    have hfirst := mem_groupsFirstNames.2 ⟨other, hother, hfirst⟩
    have hforce := hwithin own (mem_memberNames_of_groupsFirstNames groups hgroups own hfirst)
      (Members.lookup_isSome_iff.1 hsome)
    exact (hone own hforce).1 hfirst
  have hopener : name ∈ T.present (.group group) members := by
    obtain ⟨own, hown, hfirst⟩ := (groupOpenedBy (T.firstNamesWithin T.hops) group hled
      hdiscriminated (nodup_groupMemberNames_of_mem hnodup hgroup) choice hchoice).exists_mem
    have hown : own ∈ T.present (.group group) members :=
      mem_present.2 ⟨hfirst, hfulfils.lookup_isSome hown⟩
    exact hpresent hgroup own hown ▸ hown
  refine ⟨name, value, ⟨hlookup, ⟨.group group, List.mem_map_of_mem hgroup, hopener⟩, ?_⟩, hopener⟩
  intro view hview
  obtain ⟨other, hother, rfl⟩ := List.mem_map.1 hview
  exact hpresent hother

/-- Of discriminated groups without repeated names, at most one is opened by a given member. -/
theorem filter_opens_eq_singleton {groups : List (List (Clause ρ))} {group : List (Clause ρ)}
    {name : String} {value : Json} (hgroups : groupsAreDiscriminated groups = true)
    (hnodup : (groupsMemberNames groups).Nodup) (hgroup : group ∈ groups)
    (hopens : T.opens name value (.group group) = true) :
    (groups.map View.group).filter (T.opens name value) = [.group group] := by
  have hnames {other : List (Clause ρ)} (hother : other ∈ groups)
      (hopens : T.opens name value (.group other) = true) : name ∈ groupMemberNames other :=
    mem_memberNames_of_groupFirstNames other (groupsAreDiscriminated_iff.1 hgroups other hother).2
      name (mem_firstNames_of_opens hopens)
  have hfilter : groups.filter (fun other ↦ T.opens name value (.group other)) = [group] :=
    filter_eq_singleton_of_nodup hnodup hgroup (hnames hgroup hopens) hopens fun _ ↦ hnames
  rw [List.filter_map]
  exact congrArg (List.map View.group) hfilter

variable {nodes : Set ρ} {rank : ρ → Nat}

/-- A group that takes members by a choice is picked. -/
theorem Ranked.dispatchViews_eq_of_takenBy (h : T.Ranked nodes rank)
    {groups : List (List (Clause ρ))} {group : List (Clause ρ)}
    (hrefs : ∀ r ∈ groupsRefs groups, r ∈ nodes)
    (hgroups : groupsAreDiscriminated groups = true) (hnodup : (groupsMemberNames groups).Nodup)
    (hgroup : group ∈ groups) (hchoice : choice ∈ groupChoices group)
    (hwithin : Within members (groupsMemberNames groups) choice)
    (htaken : T.TakenBy path members (T.takeView T.failures path (.group group) members) choice) :
    T.dispatchViews path (groups.map .group) members =
      T.takeView T.failures path (.group group) members := by
  obtain ⟨name, value, hdecides, hopener⟩ :=
    exists_decides_of_fulfils hgroups hnodup hgroup hchoice hwithin htaken.fulfils
  have hview : ∀ r ∈ (View.group group).refs, r ∈ nodes :=
    fun r hr ↦ hrefs r (groupRefs_subset_of_mem hgroup hr)
  have hopens : T.opens name value (.group group) = true :=
    h.opensIfTaken hview members name value hdecides.lookup_eq (mem_present.1 hopener).1
      (hdecides.eq_of_mem _ (List.mem_map_of_mem hgroup)) htaken.failures_eq
  exact hdecides.dispatch_alternativesOf
    (filter_opens_eq_singleton hgroups hnodup hgroup hopens) _

mutual

/-- A choice that is fulfilled is found, if no other names of the clause are present. -/
theorem Ranked.takenBy_of_mem_choices (h : T.Ranked nodes rank) : (clause : Clause ρ) →
    (∀ r ∈ clause.refs, r ∈ nodes) → clause.isDiscriminated = true → clause.memberNames.Nodup →
    ∀ choice ∈ clause.choices, ∀ members : Members, T.Fulfils path members choice →
      Within members clause.memberNames choice →
      T.TakenBy path members
        (T.takeClause T.failures (T.takeTargetWithin T.failures path T.hops) path clause members)
        choice
  | .named name value, _, _, _, choice, hchoice, members, hfulfils, _ => by
    obtain rfl := List.mem_singleton.1 hchoice
    obtain ⟨part, hlookup, hfailures⟩ := hfulfils (name, value) (List.mem_singleton_self _)
    simp only [takeClause, hlookup]
    exact ⟨hfulfils, hfailures, Members.without_eq_outside⟩
  | .optional group, hrefs, hclause, hnodup, choice, hchoice, members, hfulfils, hwithin => by
    rw [takeClause]
    by_cases hnil : choice = []
    · subst hnil
      have hempty : (T.present (.group group) members).isEmpty = true := by
        refine LabelSet.isEmpty_iff.2 fun name hname ↦ ?_
        obtain ⟨hname, hsome⟩ := mem_present.1 hname
        exact absurd (hwithin name (mem_memberNames_of_groupFirstNames group hclause name hname)
          (Members.lookup_isSome_iff.1 hsome)) List.not_mem_nil
      rw [if_pos hempty]
      exact takenBy_keep
    · have hchoice := (List.mem_cons.1 hchoice).resolve_left hnil
      obtain ⟨name, hname, hfirst⟩ := exists_firstName_of_group (T.firstNamesWithin T.hops) group
        hclause hnodup choice hchoice hnil
      have hpresent : (T.present (.group group) members).isEmpty = false :=
        LabelSet.isEmpty_eq_false_iff.2 ⟨name, mem_present.2 ⟨hfirst, hfulfils.lookup_isSome hname⟩⟩
      rw [hpresent, if_neg Bool.false_ne_true]
      exact h.takenBy_of_mem_groupChoices group hrefs hclause hnodup choice hchoice members hfulfils
        hwithin
  | .oneOf groups, hrefs, hclause, hnodup, choice, hchoice, members, hfulfils, hwithin => by
    obtain ⟨group, hgroup, hchoice, htaken⟩ := h.takenBy_of_mem_groupsChoices groups hrefs hclause
      hnodup choice hchoice members hfulfils hwithin
    have hdispatch :=
      h.dispatchViews_eq_of_takenBy hrefs hclause hnodup hgroup hchoice hwithin htaken
    rw [dispatchViews, alternativesOf, List.map_map] at hdispatch
    rw [takeClause, takeEither_eq_map]
    exact hdispatch ▸ htaken

theorem Ranked.takenBy_of_mem_groupChoices (h : T.Ranked nodes rank) : (group : List (Clause ρ)) →
    (∀ r ∈ groupRefs group, r ∈ nodes) → groupIsDiscriminated group = true →
    (groupMemberNames group).Nodup →
    ∀ choice ∈ groupChoices group, ∀ members : Members, T.Fulfils path members choice →
      Within members (groupMemberNames group) choice →
      T.TakenBy path members
        (T.takeGroup T.failures (T.takeTargetWithin T.failures path T.hops) path group members)
        choice
  | [], _, _, _, choice, hchoice, members, _, _ => by
    obtain rfl := List.mem_singleton.1 hchoice
    exact takenBy_keep
  | clause :: group, hrefs, hgroup, hnodup, choice, hchoice, members, hfulfils, hwithin => by
    obtain ⟨hclause, hgroup⟩ := Bool.and_eq_true_iff.1 hgroup
    obtain ⟨hnodup, hnodup', hdisjoint⟩ := List.nodup_append.1 hnodup
    obtain ⟨first, hfirst, rest, hrest, rfl⟩ := mem_groupChoices_cons.1 hchoice
    have hapart : ∀ name ∈ rest.names, name ∉ clause.memberNames := fun name hname hmem ↦
      hdisjoint name hmem name (names_subset_of_groupChoices group rest hrest hname) rfl
    have hforce {name : String} (hname : name ∈ groupMemberNames (clause :: group))
        (hmem : name ∈ members.names) : name ∈ first.names ∨ name ∈ rest.names :=
      List.mem_append.1 (Choice.names_append first rest ▸ hwithin name hname hmem)
    have htaken := h.takenBy_of_mem_choices clause (fun r hr ↦ hrefs r (List.mem_append_left _ hr))
      hclause hnodup first hfirst members
      (fun entry hentry ↦ hfulfils entry (List.mem_append_left _ hentry))
      fun name hname hmem ↦ (hforce (List.mem_append_left _ hname) hmem).resolve_right
        fun hrest ↦ hapart name hrest hname
    refine htaken.andThen ?_
    rw [htaken.rest_eq]
    refine h.takenBy_of_mem_groupChoices group (fun r hr ↦ hrefs r (List.mem_append_right _ hr))
      hgroup hnodup' rest hrest _ (fun entry hentry ↦ ?_) fun name hname hmem ↦ ?_
    · obtain ⟨part, hlookup, hfailures⟩ := hfulfils entry (List.mem_append_right _ hentry)
      refine ⟨part, ?_, hfailures⟩
      rwa [Members.lookup_outside]
      exact fun hmem ↦ hapart entry.1 (List.mem_map_of_mem hentry)
        (clause.names_subset first hfirst hmem)
    · obtain ⟨hmem, hnot⟩ := Members.mem_names_outside.1 hmem
      exact (hforce (List.mem_append_right _ hname) hmem).resolve_left hnot

theorem Ranked.takenBy_of_mem_groupsChoices (h : T.Ranked nodes rank) :
    (groups : List (List (Clause ρ))) → (∀ r ∈ groupsRefs groups, r ∈ nodes) →
    groupsAreDiscriminated groups = true → (groupsMemberNames groups).Nodup →
    ∀ choice ∈ groupsChoices groups, ∀ members : Members, T.Fulfils path members choice →
      Within members (groupsMemberNames groups) choice →
      ∃ group ∈ groups, choice ∈ groupChoices group ∧
        T.TakenBy path members
          (T.takeGroup T.failures (T.takeTargetWithin T.failures path T.hops) path group members)
          choice
  | [], _, _, _, _, hchoice, _, _, _ => absurd hchoice List.not_mem_nil
  | first :: groups, hrefs, hgroups, hnodup, choice, hchoice, members, hfulfils, hwithin => by
    obtain ⟨hfirst, hgroups⟩ := Bool.and_eq_true_iff.1 hgroups
    obtain ⟨hnodup, hnodup', -⟩ := List.nodup_append.1 hnodup
    rcases List.mem_append.1 hchoice with hchoice | hchoice
    · have htaken := h.takenBy_of_mem_groupChoices first
        (fun r hr ↦ hrefs r (List.mem_append_left _ hr)) (Bool.and_eq_true_iff.1 hfirst).2 hnodup
        choice hchoice members hfulfils fun name hname ↦ hwithin name (List.mem_append_left _ hname)
      exact ⟨first, List.mem_cons_self, hchoice, htaken⟩
    · obtain ⟨group, hgroup, hchoice, htaken⟩ := h.takenBy_of_mem_groupsChoices groups
        (fun r hr ↦ hrefs r (List.mem_append_right _ hr)) hgroups hnodup' choice hchoice members
        hfulfils fun name hname ↦ hwithin name (List.mem_append_right _ hname)
      exact ⟨group, List.mem_cons_of_mem _ hgroup, hchoice, htaken⟩

end

/-! ### Objects -/

/-- An object of discriminated clauses with distinct names has no failure if and only if its names
are those of a choice that is fulfilled. -/
theorem Ranked.failures_eq_nil_iff_of_discriminated (h : T.Ranked nodes rank) {r : ρ}
    (hr : r ∈ nodes) {clauses : List (Clause ρ)} (hcheck : T.check r = .object clauses)
    (hclauses : groupIsDiscriminated clauses = true) (hnodup : (groupMemberNames clauses).Nodup) :
    T.failures r path (.object members) = [] ↔ ∃ choice ∈ groupChoices clauses,
      (∀ name, name ∈ members.names ↔ name ∈ choice.names) ∧ T.Fulfils path members choice := by
  have hrefs : ∀ next ∈ groupRefs clauses, next ∈ nodes := fun next hnext ↦
    h.closed r hr next (by rwa [hcheck])
  simp only [h.failures_eq hr, hcheck, closeObject_eq_nil_iff, takeView]
  constructor
  · rintro ⟨hfailures, hrest⟩
    obtain ⟨choice, hchoice, htaken⟩ :=
      exists_choice_of_takeGroup clauses hclauses members hfailures
    rw [htaken.rest_eq, Members.outside_eq_nil_iff] at hrest
    exact ⟨choice, hchoice, fun name ↦ ⟨@hrest name, fun hname ↦
      Members.lookup_isSome_iff.1 (htaken.fulfils.lookup_isSome hname)⟩, htaken.fulfils⟩
  · rintro ⟨choice, hchoice, hnames, hfulfils⟩
    have htaken := h.takenBy_of_mem_groupChoices clauses hrefs hclauses hnodup choice hchoice
      members hfulfils fun name _ hname ↦ (hnames name).1 hname
    exact ⟨htaken.failures_eq, htaken.rest_eq.trans
      (Members.outside_eq_nil_iff.2 fun name hname ↦ (hnames name).1 hname)⟩

end Table

end JsonPattern
