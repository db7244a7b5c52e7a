import JsonPattern.Proofs.Pattern.Reordering
import JsonPattern.Proofs.Validator.Comparison
import JsonPattern.Proofs.Validator.Disjunction
import JsonPattern.Proofs.Validator.Opening

/-!
# Shallow looks and openings in another order

Two tables are reorderings of each other if every check of the second is the check of the first with
its alternatives, or the groups of its clauses, in another order. Values that are compared are then
seen alike through both: by shallow looks, which count alternatives, and by what may open a clause,
which is a set of names, a choice of checks, or a count again.

## Main definitions

* `Branch.Alike`, `View.Reordered` : branches and views in another order.
* `Table.Reordered` : the same checks but for the order of alternatives and of groups.
* `Table.Suits` : a comparison of runs suits a table.

## Main results

* `Table.Reordered.fits_eq`, `Table.Reordered.branches_matched` : shallow looks in another order.
* `Table.Reordered.labels_same` : the labels are the same but for their order.
* `Table.Reordered.firstNames_same`, `Table.Reordered.opens_eq` : openings in another order.
-/

namespace JsonPattern

variable {ρ : Type}

/-! ### Branches in another order -/

/-- Two branches are the same, but for the order of the objects between which the members decide. -/
inductive Branch.Alike : Branch ρ → Branch ρ → Prop
  | single (r : ρ) : Alike (.single r) (.single r)
  | objects {rs others : List ρ} (h : rs.Perm others) : Alike (.objects rs) (.objects others)

/-- The branch of the objects among leaves, if there are any. -/
def objectBranch : List ρ → List (Branch ρ)
  | [] => []
  | [only] => [.single only]
  | objects => [.objects objects]

theorem matched_objectBranch {objects others : List ρ} (h : objects.Perm others) :
    Matched Branch.Alike (objectBranch objects) (objectBranch others) := by
  rcases objects with _ | ⟨first, _ | ⟨second, rest⟩⟩
  · obtain rfl := List.nil_perm.1 h
    exact Matched.nil
  · obtain rfl := List.singleton_perm.1 h
    exact Matched.singleton (Branch.Alike.single first)
  · rcases others with _ | ⟨other, _ | ⟨other', rest'⟩⟩
    · exact absurd h.length_eq (by simp)
    · exact absurd h.length_eq (by simp)
    · exact .singleton (.objects h)

/-! ### Openings of clauses in another order -/

/-- Two views, one with the groups of its clauses in another order. -/
inductive View.Reordered : View ρ → View ρ → Prop
  | group {clauses others : List (Clause ρ)} (h : GroupReordered clauses others) :
      Reordered (.group clauses) (.group others)
  | ref (r : ρ) : Reordered (.ref r) (.ref r)

section FirstNames

variable {ofTarget ofTarget' : ρ → LabelSet}

mutual

theorem Clause.Reordered.firstNames_same (htarget : ∀ t, (ofTarget t).Same (ofTarget' t)) :
    {clause other : Clause ρ} → clause.Reordered other →
    (clause.firstNames ofTarget).Same (other.firstNames ofTarget')
  | .named _ _, _, rfl => .refl _
  | .optional _, _, ⟨_, rfl, h⟩ => GroupReordered.firstNames_same htarget h
  | .many _, _, rfl => .refl _
  | .flatten t, _, rfl => htarget t
  | .oneOf _, _, ⟨_, _, rfl, h, hperm⟩ => fun name ↦
    (GroupsReordered.firstNames_same htarget h name).trans (by
      simp only [Clause.firstNames, mem_groupsFirstNames, hperm.mem_iff])

theorem GroupReordered.firstNames_same (htarget : ∀ t, (ofTarget t).Same (ofTarget' t)) :
    {group other : List (Clause ρ)} → GroupReordered group other →
    (groupFirstNames ofTarget group).Same (groupFirstNames ofTarget' other)
  | [], _, rfl => .refl _
  | clause :: _, _, ⟨_, _, rfl, hclause, hgroup⟩ => by
    have hfirst := Clause.Reordered.firstNames_same htarget hclause
    rw [groupFirstNames, groupFirstNames, hclause.isOptional_eq]
    split
    · exact hfirst.union (GroupReordered.firstNames_same htarget hgroup)
    · exact hfirst

theorem GroupsReordered.firstNames_same (htarget : ∀ t, (ofTarget t).Same (ofTarget' t)) :
    {groups others : List (List (Clause ρ))} → GroupsReordered groups others →
    (groupsFirstNames ofTarget groups).Same (groupsFirstNames ofTarget' others)
  | [], _, rfl => .refl _
  | _ :: _, _, ⟨_, _, rfl, hgroup, hgroups⟩ =>
    (GroupReordered.firstNames_same htarget hgroup).union
      (GroupsReordered.firstNames_same htarget hgroups)

end

end FirstNames

section FirstChecks

variable {ofTarget ofTarget' : ρ → List ρ} {name : String}

theorem groupsFirstChecks_eq_flatMap (groups : List (List (Clause ρ))) :
    groupsFirstChecks ofTarget name groups = groups.flatMap (groupFirstChecks ofTarget name) := by
  induction groups with
  | nil => rfl
  | cons group groups ih => rw [groupsFirstChecks, ih, List.flatMap_cons]

mutual

theorem Clause.Reordered.firstChecks_perm (htarget : ∀ t, (ofTarget t).Perm (ofTarget' t)) :
    {clause other : Clause ρ} → clause.Reordered other →
    (clause.firstChecks ofTarget name).Perm (other.firstChecks ofTarget' name)
  | .named _ _, _, rfl => .refl _
  | .optional _, _, ⟨_, rfl, h⟩ => GroupReordered.firstChecks_perm htarget h
  | .many _, _, rfl => .refl _
  | .flatten t, _, rfl => htarget t
  | .oneOf _, _, ⟨_, _, rfl, h, hperm⟩ => (GroupsReordered.firstChecks_perm htarget h).trans (by
      rw [Clause.firstChecks, groupsFirstChecks_eq_flatMap, groupsFirstChecks_eq_flatMap]
      exact hperm.flatMap_right _)

theorem GroupReordered.firstChecks_perm (htarget : ∀ t, (ofTarget t).Perm (ofTarget' t)) :
    {group other : List (Clause ρ)} → GroupReordered group other →
    (groupFirstChecks ofTarget name group).Perm (groupFirstChecks ofTarget' name other)
  | [], _, rfl => .refl _
  | clause :: _, _, ⟨_, _, rfl, hclause, hgroup⟩ => by
    have hfirst := Clause.Reordered.firstChecks_perm htarget hclause
    rw [groupFirstChecks, groupFirstChecks, hclause.isOptional_eq]
    split
    · exact hfirst.append (GroupReordered.firstChecks_perm htarget hgroup)
    · exact hfirst

theorem GroupsReordered.firstChecks_perm (htarget : ∀ t, (ofTarget t).Perm (ofTarget' t)) :
    {groups others : List (List (Clause ρ))} → GroupsReordered groups others →
    (groupsFirstChecks ofTarget name groups).Perm (groupsFirstChecks ofTarget' name others)
  | [], _, rfl => .refl _
  | _ :: _, _, ⟨_, _, rfl, hgroup, hgroups⟩ =>
    (GroupReordered.firstChecks_perm htarget hgroup).append
      (GroupsReordered.firstChecks_perm htarget hgroups)

end

end FirstChecks

section Opens

variable {fits fits' ofTarget ofTarget' : ρ → Bool} {name : String}

mutual

theorem Clause.Reordered.opens_eq (hfits : ∀ r, fits r = fits' r)
    (htarget : ∀ t, ofTarget t = ofTarget' t) : {clause other : Clause ρ} →
    clause.Reordered other →
    clause.opens fits ofTarget name = other.opens fits' ofTarget' name
  | .named own value, _, rfl => congrArg (own == name && ·) (hfits value)
  | .optional _, _, ⟨_, rfl, h⟩ => GroupReordered.opens_eq hfits htarget h
  | .many _, _, rfl => rfl
  | .flatten t, _, rfl => htarget t
  | .oneOf _, _, ⟨_, _, rfl, h, hperm⟩ => by
    rw [Clause.opens, Clause.opens, GroupsReordered.opened_eq hfits htarget h,
      groupsOpened_eq_countP, groupsOpened_eq_countP, hperm.countP_eq]

theorem GroupReordered.opens_eq (hfits : ∀ r, fits r = fits' r)
    (htarget : ∀ t, ofTarget t = ofTarget' t) :
    {group other : List (Clause ρ)} → GroupReordered group other →
    groupOpens fits ofTarget name group = groupOpens fits' ofTarget' name other
  | [], _, rfl => rfl
  | _ :: _, _, ⟨_, _, rfl, hclause, hgroup⟩ => by
    rw [groupOpens, groupOpens, Clause.Reordered.opens_eq hfits htarget hclause,
      hclause.isOptional_eq, GroupReordered.opens_eq hfits htarget hgroup]

theorem GroupsReordered.opened_eq (hfits : ∀ r, fits r = fits' r)
    (htarget : ∀ t, ofTarget t = ofTarget' t) :
    {groups others : List (List (Clause ρ))} → GroupsReordered groups others →
    groupsOpened fits ofTarget name groups = groupsOpened fits' ofTarget' name others
  | [], _, rfl => rfl
  | _ :: _, _, ⟨_, _, rfl, hgroup, hgroups⟩ => by
    rw [groupsOpened, groupsOpened, GroupReordered.opens_eq hfits htarget hgroup,
      GroupsReordered.opened_eq hfits htarget hgroups]

end

end Opens

namespace Table

variable {T U : Table ρ}

/-- Branches are those of the leaves that are no objects, one by one, and the branch of the
objects. -/
theorem groupBranches_perm {fits : ρ → Bool} {leaves : List ρ} :
    (T.groupBranches fits leaves).Perm (objectBranch (leaves.filter T.isObject) ++
      (leaves.filter fun r ↦ !T.isObject r && fits r).map .single) := by
  have hsplit : (leaves.filter fun r ↦ !T.isObject r && fits r) =
      ((leaves.takeWhile fun r ↦ !T.isObject r).filter fun r ↦ !T.isObject r && fits r) ++
        (leaves.dropWhile fun r ↦ !T.isObject r).filter fun r ↦ !T.isObject r && fits r := by
    rw [← List.filter_append, List.takeWhile_append_dropWhile]
  unfold groupBranches
  rcases leaves.filter T.isObject with _ | ⟨first, _ | ⟨second, rest⟩⟩
  · exact .refl _
  · rw [hsplit, List.map_append]
    exact List.perm_middle
  · rw [hsplit, List.map_append]
    exact List.perm_middle

/-! ### Tables in another order -/

/-- The checks of two tables are the same, but for the order of alternatives and of groups. -/
structure Reordered (T U : Table ρ) : Prop where
  /-- Both follow as many references in a row. -/
  hops_eq : U.hops = T.hops
  /-- Each check has its alternatives, or the groups of its clauses, in another order. -/
  check : ∀ r, (T.check r).Reordered (U.check r)

/-- What two runs may look at suits a table: literals do not tell values apart, and clauses for all
members, where there are any, keep the failures comparable. -/
structure Suits (T : Table ρ) (C : Comparison) : Prop where
  /-- Literals are scalars, or only equal values are compared. -/
  literal : ∀ r value, T.check r = .literal value →
    value.isScalar = true ∨ ∀ v w, C.value v w → v = w
  /-- The failures of members can be put together, or there are no clauses for all members. -/
  many : C.Spreads ∨ ∀ r clauses, T.check r = .object clauses → groupHasMany clauses = false

namespace Reordered

variable (h : T.Reordered U)

include h

theorem check_object {r : ρ} {clauses : List (Clause ρ)} (hcheck : T.check r = .object clauses) :
    ∃ others, U.check r = .object others ∧ GroupReordered clauses others := by
  have hr := h.check r
  rwa [hcheck] at hr

theorem check_oneOf {r : ρ} {alternatives : List ρ} (hcheck : T.check r = .oneOf alternatives) :
    ∃ others, U.check r = .oneOf others ∧ alternatives.Perm others := by
  have hr := h.check r
  rwa [hcheck] at hr

theorem isObject_eq (r : ρ) : T.isObject r = U.isObject r := by
  rw [isObject, isObject]
  have hr := h.check r
  cases hcheck : T.check r with
  | object => obtain ⟨_, hother, -⟩ := h.check_object hcheck; rw [hother]; rfl
  | oneOf => obtain ⟨_, hother, -⟩ := h.check_oneOf hcheck; rw [hother]; rfl
  | kind | literal | regex | arrayOf | anything => rw [hcheck] at hr; rw [hr]

/-! ### Labels -/

theorem labelsWithin_same (hops : Nat) (r : ρ) :
    (T.labelsWithin hops r).Same (U.labelsWithin hops r) := by
  induction hops generalizing r with
  | zero => exact .refl _
  | succ hops ih =>
    rw [labelsWithin, labelsWithin]
    have hr := h.check r
    cases hcheck : T.check r with
    | object => obtain ⟨_, hother, -⟩ := h.check_object hcheck; rw [hother]; exact .refl _
    | oneOf alternatives =>
      obtain ⟨others, hother, hperm⟩ := h.check_oneOf hcheck
      rw [hother]
      exact .unions_perm hperm ih
    | kind | literal | regex | arrayOf | anything => rw [hcheck] at hr; rw [hr]; exact .refl _

theorem labels_same (r : ρ) : (T.labels r).Same (U.labels r) := by
  rw [labels, labels, h.hops_eq]
  exact h.labelsWithin_same T.hops r

theorem labelsOf_same {rs others : List ρ} (hperm : rs.Perm others) :
    (T.labelsOf rs).Same (U.labelsOf others) :=
  .unions_perm hperm h.labels_same

/-! ### Branches -/

theorem leavesWithin_perm (hops : Nat) (r : ρ) :
    (T.leavesWithin hops r).Perm (U.leavesWithin hops r) := by
  induction hops generalizing r with
  | zero => exact .refl _
  | succ hops ih =>
    rw [leavesWithin, leavesWithin]
    have hr := h.check r
    cases hcheck : T.check r with
    | object => obtain ⟨_, hother, -⟩ := h.check_object hcheck; rw [hother]
    | oneOf alternatives =>
      obtain ⟨others, hother, hperm⟩ := h.check_oneOf hcheck
      rw [hother]
      exact hperm.flatMap fun a _ ↦ ih a
    | kind | literal | regex | arrayOf | anything => rw [hcheck] at hr; rw [hr]

variable [DecidableEq ρ]

theorem splice_perm {rs others : List ρ} (hperm : rs.Perm others) :
    (T.splice rs).Perm (U.splice others) := by
  rw [splice_eq_foldl, splice_eq_foldl, leaves, leaves, h.hops_eq]
  exact foldl_addLeaf_perm (hperm.flatMap fun r _ ↦ h.leavesWithin_perm T.hops r)

omit [DecidableEq ρ] in
theorem groupBranches_matched {p q : ρ → Bool} (hpq : ∀ r, p r = q r) {leaves others : List ρ}
    (hperm : leaves.Perm others) :
    Matched Branch.Alike (T.groupBranches p leaves) (U.groupBranches q others) := by
  have hobjects : (leaves.filter T.isObject).Perm (others.filter U.isObject) := by
    rw [funext h.isObject_eq]
    exact hperm.filter _
  have hsingles : (leaves.filter fun r ↦ !T.isObject r && p r).Perm
      (others.filter fun r ↦ !U.isObject r && q r) := by
    simp only [h.isObject_eq, hpq]
    exact hperm.filter _
  refine .perm_trans groupBranches_perm (.trans_perm (.append ?_ ?_) groupBranches_perm.symm)
  · exact matched_objectBranch hobjects
  · exact (Matched.of_perm (fun _ _ ↦ rfl) hsingles).map fun r _ hr ↦ hr ▸ .single r

theorem branchesBy_matched {p q : ρ → Bool} (hpq : ∀ r, p r = q r) {rs others : List ρ}
    (hperm : rs.Perm others) {v w : Json} (hvw : v.isObject = w.isObject) :
    Matched Branch.Alike (T.branchesBy p rs v) (U.branchesBy q others w) := by
  rw [branchesBy, branchesBy, ← hvw]
  split
  · exact h.groupBranches_matched hpq (h.splice_perm hperm)
  · rw [funext hpq]
    exact (Matched.of_perm (fun _ _ ↦ rfl) (hperm.filter q)).map fun r _ hr ↦ hr ▸ .single r

omit [DecidableEq ρ] in
theorem branchLabels_same {branch other : Branch ρ} (hbranch : branch.Alike other) :
    (T.branchLabels branch).Same (U.branchLabels other) := by
  cases hbranch with
  | single r => exact h.labels_same r
  | objects hperm => exact h.labelsOf_same hperm

/-! ### Shallow looks -/

variable {C : Comparison} (hsuits : T.Suits C) {v w : Json} (hvw : C.value v w)

include hsuits hvw

theorem fitsWithin_eq (hops : Nat) (r : ρ) : T.fitsWithin hops r v = U.fitsWithin hops r w := by
  have hsides := C.sides v w hvw
  induction hops generalizing r with
  | zero => rfl
  | succ hops ih =>
    rw [fitsWithin, fitsWithin]
    have hr := h.check r
    cases hcheck : T.check r with
    | object =>
      obtain ⟨_, hother, -⟩ := h.check_object hcheck
      rw [hother]
      exact hsides.isObject_eq
    | oneOf alternatives =>
      obtain ⟨others, hother, hperm⟩ := h.check_oneOf hcheck
      rw [hother]
      exact congrArg (· == 1) (h.branchesBy_matched ih hperm hsides.isObject_eq).length_eq
    | literal literal =>
      rw [hcheck] at hr
      rw [hr]
      rcases hsuits.literal r literal hcheck with hscalar | heq
      · exact hsides.equal_eq hscalar
      · rw [heq v w hvw]
    | kind type => rw [hcheck] at hr; rw [hr, hsides.kind_eq]
    | regex => rw [hcheck] at hr; rw [hr]; cases hsides <;> rfl
    | arrayOf => rw [hcheck] at hr; rw [hr]; exact hsides.isArray_eq
    | anything => rw [hcheck] at hr; rw [hr]

theorem fits_eq (r : ρ) : T.fits r v = U.fits r w := by
  rw [fits, fits, h.hops_eq]
  exact h.fitsWithin_eq hsuits hvw T.hops r

theorem branches_matched {rs others : List ρ} (hperm : rs.Perm others) :
    Matched Branch.Alike (T.branches rs v) (U.branches others w) :=
  h.branchesBy_matched (h.fits_eq hsuits hvw) hperm (C.sides v w hvw).isObject_eq

/-! ### Openings of checks -/

section Openings

omit hsuits hvw

omit [DecidableEq ρ] in
theorem firstNamesWithin_same (hops : Nat) (r : ρ) :
    (T.firstNamesWithin hops r).Same (U.firstNamesWithin hops r) := by
  induction hops generalizing r with
  | zero => exact .refl _
  | succ hops ih =>
    rw [firstNamesWithin, firstNamesWithin]
    have hr := h.check r
    cases hcheck : T.check r with
    | object clauses =>
      obtain ⟨others, hother, hclauses⟩ := h.check_object hcheck
      rw [hother]
      exact hclauses.firstNames_same ih
    | oneOf alternatives =>
      obtain ⟨others, hother, hperm⟩ := h.check_oneOf hcheck
      rw [hother]
      exact .unions_perm hperm ih
    | kind | literal | regex | arrayOf | anything => rw [hcheck] at hr; rw [hr]; exact .refl _

omit [DecidableEq ρ] in
theorem firstChecksWithin_perm (name : String) (hops : Nat) (r : ρ) :
    (T.firstChecksWithin name hops r).Perm (U.firstChecksWithin name hops r) := by
  induction hops generalizing r with
  | zero => exact .refl _
  | succ hops ih =>
    rw [firstChecksWithin, firstChecksWithin]
    have hr := h.check r
    cases hcheck : T.check r with
    | object clauses =>
      obtain ⟨others, hother, hclauses⟩ := h.check_object hcheck
      rw [hother]
      exact hclauses.firstChecks_perm ih
    | oneOf alternatives =>
      obtain ⟨others, hother, hperm⟩ := h.check_oneOf hcheck
      rw [hother]
      exact hperm.flatMap fun a _ ↦ ih a
    | kind | literal | regex | arrayOf | anything => rw [hcheck] at hr; rw [hr]

end Openings

theorem opensWithin_eq (name : String) (hops : Nat) (r : ρ) :
    T.opensWithin name v hops r = U.opensWithin name w hops r := by
  induction hops generalizing r with
  | zero => rfl
  | succ hops ih =>
    rw [opensWithin, opensWithin]
    have hr := h.check r
    cases hcheck : T.check r with
    | object clauses =>
      obtain ⟨others, hother, hclauses⟩ := h.check_object hcheck
      rw [hother]
      exact hclauses.opens_eq (h.fits_eq hsuits hvw) ih
    | oneOf alternatives =>
      obtain ⟨others, hother, hperm⟩ := h.check_oneOf hcheck
      rw [hother, funext ih]
      exact congrArg (· == 1) (hperm.countP_eq _)
    | kind | literal | regex | arrayOf | anything => rw [hcheck] at hr; rw [hr]

/-! ### Openings of views -/

section Views

variable {view other : View ρ} (hview : view.Reordered other)

include hview

omit hsuits hvw

omit [DecidableEq ρ] in
theorem firstNames_same : (T.firstNames view).Same (U.firstNames other) := by
  cases hview with
  | group hclauses =>
    rw [firstNames, firstNames, h.hops_eq]
    exact hclauses.firstNames_same (h.firstNamesWithin_same T.hops)
  | ref r =>
    rw [firstNames, firstNames, h.hops_eq]
    exact h.firstNamesWithin_same T.hops r

omit [DecidableEq ρ] in
theorem firstChecks_perm (name : String) :
    (T.firstChecks name view).Perm (U.firstChecks name other) := by
  cases hview with
  | group hclauses =>
    rw [firstChecks, firstChecks, h.hops_eq]
    exact hclauses.firstChecks_perm (h.firstChecksWithin_perm name T.hops)
  | ref r =>
    rw [firstChecks, firstChecks, h.hops_eq]
    exact h.firstChecksWithin_perm name T.hops r

omit [DecidableEq ρ] in
theorem present_same {ms ns : Members} (hmembers : C.members ms ns) :
    (T.present view ms).Same (U.present other ns) :=
  (h.firstNames_same hview).filter (Comparison.isSome_lookup_eq hmembers)

include hsuits hvw

theorem opens_eq (name : String) : T.opens name v view = U.opens name w other := by
  cases hview with
  | group hclauses =>
    rw [opens, opens, h.hops_eq]
    exact hclauses.opens_eq (h.fits_eq hsuits hvw) (h.opensWithin_eq hsuits hvw name T.hops)
  | ref r =>
    rw [opens, opens, h.hops_eq]
    exact h.opensWithin_eq hsuits hvw name T.hops r

end Views

end Reordered

end Table

end JsonPattern
