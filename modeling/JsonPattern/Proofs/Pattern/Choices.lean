import JsonPattern.Pattern.Clause
import Mathlib.Data.List.Basic

/-!
# Choices of named clauses

A list of clauses leaves choices open: an optional group is taken or skipped, and of an alternation
one group is picked. `groupChoices` lists them, each by the named clauses that are in force. It says
nothing of how a choice is found.

A list of clauses is *discriminated* if it is built from named clauses, optional groups and
alternations only, and every group of an alternation begins with a named clause or with an
alternation, so that a name tells the groups apart.
-/

namespace JsonPattern

variable {ρ : Type}

/-! ### Names -/

mutual

/-- The names of the named clauses in a clause. -/
def Clause.memberNames : Clause ρ → List String
  | .named name _ => [name]
  | .optional group => groupMemberNames group
  | .many _ => []
  | .flatten _ => []
  | .oneOf groups => groupsMemberNames groups
termination_by structural clause => clause

/-- The names of the named clauses in a list of clauses. -/
def groupMemberNames : List (Clause ρ) → List String
  | [] => []
  | clause :: group => clause.memberNames ++ groupMemberNames group
termination_by structural group => group

/-- The names of the named clauses in several groups. -/
def groupsMemberNames : List (List (Clause ρ)) → List String
  | [] => []
  | group :: groups => groupMemberNames group ++ groupsMemberNames groups
termination_by structural groups => groups

end

/-! ### Discriminated clauses -/

/-- Whether a group begins with a named clause or with an alternation. -/
def groupIsLed : List (Clause ρ) → Bool
  | .named _ _ :: _ => true
  | .oneOf _ :: _ => true
  | _ => false

mutual

/-- Whether a clause is a named clause, an optional group or an alternation, in which names tell the
groups of alternations apart. -/
def Clause.isDiscriminated : Clause ρ → Bool
  | .named _ _ => true
  | .optional group => groupIsDiscriminated group
  | .many _ => false
  | .flatten _ => false
  | .oneOf groups => groupsAreDiscriminated groups
termination_by structural clause => clause

/-- Whether all clauses of a list are discriminated. -/
def groupIsDiscriminated : List (Clause ρ) → Bool
  | [] => true
  | clause :: group => clause.isDiscriminated && groupIsDiscriminated group
termination_by structural group => group

/-- Whether all groups of an alternation are discriminated, and begin with a named clause or with an
alternation. -/
def groupsAreDiscriminated : List (List (Clause ρ)) → Bool
  | [] => true
  | group :: groups =>
    groupIsLed group && groupIsDiscriminated group && groupsAreDiscriminated groups
termination_by structural groups => groups

end

/-! ### Choices -/

/-- The named clauses that are in force: their names and the references of their values. -/
abbrev Choice (ρ : Type) := List (String × ρ)

/-- The names that are in force. -/
def Choice.names (choice : Choice ρ) : List String := choice.map Prod.fst

mutual

/-- The choices that a clause leaves open. -/
def Clause.choices : Clause ρ → List (Choice ρ)
  | .named name value => [[(name, value)]]
  | .optional group => [] :: groupChoices group
  | .many _ => []
  | .flatten _ => []
  | .oneOf groups => groupsChoices groups
termination_by structural clause => clause

/-- The choices that a list of clauses leaves open: one for each clause. -/
def groupChoices : List (Clause ρ) → List (Choice ρ)
  | [] => [[]]
  | clause :: group =>
    clause.choices.flatMap fun first ↦ (groupChoices group).map fun rest ↦ first ++ rest
termination_by structural group => group

/-- The choices that several groups leave open: those of one of them. -/
def groupsChoices : List (List (Clause ρ)) → List (Choice ρ)
  | [] => []
  | group :: groups => groupChoices group ++ groupsChoices groups
termination_by structural groups => groups

end

theorem Choice.names_append (first rest : Choice ρ) :
    (first ++ rest).names = first.names ++ rest.names :=
  List.map_append

theorem mem_groupChoices_cons {choice : Choice ρ} {clause : Clause ρ} {group : List (Clause ρ)} :
    choice ∈ groupChoices (clause :: group) ↔
      ∃ first ∈ clause.choices, ∃ rest ∈ groupChoices group, choice = first ++ rest := by
  simp [groupChoices, eq_comm]

theorem mem_groupsChoices {choice : Choice ρ} {groups : List (List (Clause ρ))} :
    choice ∈ groupsChoices groups ↔ ∃ group ∈ groups, choice ∈ groupChoices group := by
  induction groups with
  | nil => simp [groupsChoices]
  | cons group groups ih => simp [groupsChoices, ih]

theorem mem_groupsMemberNames {name : String} {groups : List (List (Clause ρ))} :
    name ∈ groupsMemberNames groups ↔ ∃ group ∈ groups, name ∈ groupMemberNames group := by
  induction groups with
  | nil => simp [groupsMemberNames]
  | cons group groups ih => simp [groupsMemberNames, ih]

theorem groupsAreDiscriminated_iff {groups : List (List (Clause ρ))} :
    groupsAreDiscriminated groups = true ↔
      ∀ group ∈ groups, groupIsLed group = true ∧ groupIsDiscriminated group = true := by
  induction groups with
  | nil => simp [groupsAreDiscriminated]
  | cons group groups ih => simp [groupsAreDiscriminated, ih]

theorem nodup_groupMemberNames_of_mem {group : List (Clause ρ)} {groups : List (List (Clause ρ))}
    (h : (groupsMemberNames groups).Nodup) (hgroup : group ∈ groups) :
    (groupMemberNames group).Nodup := by
  induction groups with
  | nil => exact absurd hgroup List.not_mem_nil
  | cons first groups ih =>
    obtain ⟨hfirst, hgroups, -⟩ := List.nodup_append.1 h
    rcases List.mem_cons.1 hgroup with rfl | hgroup
    · exact hfirst
    · exact ih hgroups hgroup

mutual

/-- The names that are in force are names of the clause. -/
theorem Clause.names_subset : (clause : Clause ρ) → ∀ choice ∈ clause.choices,
    choice.names ⊆ clause.memberNames
  | .named name value, choice, hchoice => by
    rw [Clause.choices, List.mem_singleton] at hchoice
    rw [hchoice]
    exact List.Subset.refl _
  | .optional group, choice, hchoice => by
    rcases List.mem_cons.1 hchoice with rfl | hchoice
    · exact List.nil_subset _
    · exact names_subset_of_groupChoices group choice hchoice
  | .many _, _, hchoice => absurd hchoice List.not_mem_nil
  | .flatten _, _, hchoice => absurd hchoice List.not_mem_nil
  | .oneOf groups, choice, hchoice => names_subset_of_groupsChoices groups choice hchoice

theorem names_subset_of_groupChoices : (group : List (Clause ρ)) → ∀ choice ∈ groupChoices group,
    choice.names ⊆ groupMemberNames group
  | [], choice, hchoice => by
    rw [groupChoices, List.mem_singleton] at hchoice
    rw [hchoice]
    exact List.nil_subset _
  | clause :: group, choice, hchoice => by
    obtain ⟨first, hfirst, rest, hrest, rfl⟩ := mem_groupChoices_cons.1 hchoice
    rw [Choice.names_append]
    exact List.append_subset.2
      ⟨fun _ h ↦ List.mem_append_left _ (clause.names_subset first hfirst h),
        fun _ h ↦ List.mem_append_right _ (names_subset_of_groupChoices group rest hrest h)⟩

theorem names_subset_of_groupsChoices : (groups : List (List (Clause ρ))) →
    ∀ choice ∈ groupsChoices groups, choice.names ⊆ groupsMemberNames groups
  | [], _, hchoice => absurd hchoice List.not_mem_nil
  | group :: groups, choice, hchoice => by
    rcases List.mem_append.1 hchoice with hchoice | hchoice
    · have hnames := names_subset_of_groupChoices group choice hchoice
      exact fun _ h ↦ List.mem_append_left _ (hnames h)
    · have hnames := names_subset_of_groupsChoices groups choice hchoice
      exact fun _ h ↦ List.mem_append_right _ (hnames h)

end

/-- If no name is repeated, a test that holds only of groups with a given name holds of no other
group than the one with that name. -/
theorem filter_eq_singleton_of_nodup {p : List (Clause ρ) → Bool} {name : String}
    {groups : List (List (Clause ρ))} {group : List (Clause ρ)}
    (hnodup : (groupsMemberNames groups).Nodup) (hgroup : group ∈ groups)
    (hname : name ∈ groupMemberNames group) (hp : p group = true)
    (h : ∀ other ∈ groups, p other = true → name ∈ groupMemberNames other) :
    groups.filter p = [group] := by
  induction groups with
  | nil => exact absurd hgroup List.not_mem_nil
  | cons first groups ih =>
    obtain ⟨-, hnodup, hdisjoint⟩ := List.nodup_append.1 hnodup
    have hrest : ∀ other ∈ groups, p other = true → name ∈ groupMemberNames other :=
      fun other hother ↦ h other (List.mem_cons_of_mem first hother)
    by_cases hmem : name ∈ groupMemberNames first
    · have hnone : ∀ other ∈ groups, ¬ p other = true := by
        intro other hother hp
        have hname := mem_groupsMemberNames.2 ⟨other, hother, hrest other hother hp⟩
        exact hdisjoint name hmem name hname rfl
      rcases List.mem_cons.1 hgroup with rfl | hgroup
      · rw [List.filter_cons_of_pos hp, List.filter_eq_nil_iff.2 hnone]
      · exact absurd hp (hnone group hgroup)
    · rcases List.mem_cons.1 hgroup with rfl | hgroup
      · exact absurd hname hmem
      · rw [List.filter_cons_of_neg fun hp ↦ hmem (h first List.mem_cons_self hp)]
        exact ih hnodup hgroup hrest

end JsonPattern
