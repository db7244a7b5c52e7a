import JsonPattern.Proofs.Graph.WellFormed
import JsonPattern.Proofs.Validator.Calls
import JsonPattern.Proofs.Validator.Splicing

/-!
# Regular validators

The functions of a validator have arms that are there only because they have to say something: what
a reference beyond the end of the checks leads to, what a flattened check takes that has no members,
what is done with a group of objects where the value is none. `Validator.Strays` lists them, and
`Validator.strictRun` answers calls as `Table.run` does, but stops at a call that takes one.

A regular validator refers to its own checks only and flattens objects only. Its calls are then
sound, and so are the calls that they make (`Table.Makes.sound`); a sound call takes none of these
arms, so nothing is lost by stopping there.

## Main definitions

* `Validator.Regular` : checks are proper, refer to each other only, and flatten objects only.
* `Validator.Strays` : a call takes an arm that nothing is meant to lead to.
* `Table.Sound` : a call refers to given checks, and takes members of objects only.

## Main results

* `Table.Makes.sound` : the calls that a sound call makes are sound.
* `Validator.not_strays_of_sound` : a sound call does not stray.
* `Validator.Regular.strictRun_eq` : in a regular validator nothing is lost by stopping at such an
  arm.
-/

namespace JsonPattern

/-- A check is one of objects, or a disjunction all of whose alternatives are. -/
inductive Table.Flattenable {ρ : Type} (T : Table ρ) : ρ → Prop
  | object {r : ρ} {clauses : List (Clause ρ)} (hcheck : T.check r = .object clauses) :
      Flattenable T r
  | oneOf {r : ρ} {alternatives : List ρ} (hcheck : T.check r = .oneOf alternatives)
      (halternatives : ∀ a ∈ alternatives, Flattenable T a) : Flattenable T r

/-- What is asked of a check by itself: literals are scalars, types are told by the kind of a value
alone, nothing is chosen among no alternatives, and in lists of clauses a clause for all members
comes last and every alternation has a group. -/
def Check.Proper {ρ : Type} : Check ρ → Prop
  | .kind type => type ≠ .email ∧ type ≠ .url
  | .literal value => value.isScalar
  | .object clauses => ProperClauses clauses
  | .oneOf alternatives => alternatives ≠ []
  | _ => True

namespace Validator

/-- A validator whose checks are proper, refer to each other only, and flatten objects only. -/
structure Regular (V : Validator) : Prop where
  /-- The root is the slot of a check. -/
  root_lt : V.root < V.size
  /-- References are slots of checks. -/
  refs_lt : ∀ check ∈ V.checks, ∀ slot ∈ check.refs, slot < V.size
  /-- Every check is as it must be by itself. -/
  proper : ∀ check ∈ V.checks, check.Proper
  /-- Flatten targets are objects, or disjunctions of objects. -/
  flattenable : ∀ clauses, .object clauses ∈ V.checks → ∀ slot ∈ groupFlattenTargets clauses,
    V.table.Flattenable slot

end Validator

/-! ### Calls that stray -/

/-- The part that a call unfolds. -/
def Call.part? {ρ : Type} : Call ρ → Option (Part ρ)
  | .firstNames part => some part
  | .firstChecks part _ => some part
  | .opens part _ _ => some part
  | .take part _ _ => some part
  | _ => none

/-- A call looks up the check behind a reference. -/
inductive Call.Looks {ρ : Type} (T : Table ρ) : Call ρ → ρ → Prop
  | check (r : ρ) (path : Path) (value : Json) : Looks T (.check r path value) r
  | fits (r : ρ) (value : Json) : Looks T (.fits r value) r
  | branches (r : ρ) (value : Json) : Looks T (.branches r value) r
  | spliced {r a s : ρ} {value : Json} {alternatives : List ρ}
      (hcheck : T.check r = .oneOf alternatives) (hvalue : value.isObject = true)
      (ha : a ∈ alternatives) (hs : Relation.ReflTransGen T.HasAlternative a s) :
      Looks T (.branches r value) s
  | describe (r : ρ) : Looks T (.describe r) r
  | part {call : Call ρ} {part : Part ρ} {t : ρ} (hcall : call.part? = some part)
      (hpart : part.IsRef t) : Looks T call t

/-- A call takes an arm that nothing is meant to lead to. -/
inductive Validator.Strays (V : Validator) : Call Nat → Prop
  /-- A check is looked up beyond the end. -/
  | beyond {call : Call Nat} {slot : Nat} (hlooks : call.Looks V.table slot)
      (hslot : V.size ≤ slot) : Strays V call
  /-- A part is unfolded that takes no members. -/
  | nothing {call : Call Nat} {part : Part Nat} (hcall : call.part? = some part)
      (hexpand : V.table.expand part = .nothing) : Strays V call
  /-- A clause that should have been unfolded takes members. -/
  | folded {part : Part Nat} {clause : Clause Nat} {path : Path} {members : Members}
      (hexpand : V.table.expand part = .leaf clause)
      (hclause : (∃ t, clause = .flatten t) ∨ ∃ groups, clause = .oneOf groups) :
      Strays V (.take part path members)
  /-- There are names that are present, not several, and yet not one. -/
  | unnamed {views : List (View Nat)} {path : Path} {members : Members} {names : LabelSet}
      (hnames : names = .unions (views.map fun view ↦ V.table.present view members))
      (hempty : names.isEmpty = false) (hlength : names.toList.length ≤ 1)
      (hhead : names.toList.head? = none) : Strays V (.dispatch views path members)
  /-- One name is present, and yet there is no member of that name. -/
  | missing {views : List (View Nat)} {path : Path} {members : Members} {names : LabelSet}
      {name : String}
      (hnames : names = .unions (views.map fun view ↦ V.table.present view members))
      (hname : names.toList = [name]) (hlookup : members.lookup name = none) :
      Strays V (.dispatch views path members)
  /-- The members are to decide, and yet the value is no object. -/
  | memberless {slot : Nat} {alternatives objects : List Nat} {path : Path} {value : Json}
      (hcheck : V.table.check slot = .oneOf alternatives)
      (hbranches : V.table.branches alternatives value = [.objects objects])
      (hvalue : value.isObject = false) : Strays V (.check slot path value)

open Classical in
/-- Answers a call over at most so many levels of calls within calls, unless it strays or a call on
the way does. -/
noncomputable def Validator.strictRun (V : Validator) (rounds : Nat) :
    Nat → (call : Call Nat) → Option call.Answer
  | 0, _ => none
  | levels + 1, call =>
    if V.Strays call then none else V.table.perform rounds (strictRun V rounds levels) call

/-! ### Sound calls -/

section Sound

variable {ρ : Type}

/-- The references of a part. -/
def Part.refs : Part ρ → List ρ
  | .clause c => c.refs
  | .view v => v.refs

/-- The references of a call. -/
def Call.refs : Call ρ → List ρ
  | .check r _ _ => [r]
  | .fits r _ => [r]
  | .branches r _ => [r]
  | .describe r => [r]
  | .describeAll rs => rs
  | .firstNames part => part.refs
  | .firstChecks part _ => part.refs
  | .opens part _ _ => part.refs
  | .take part _ _ => part.refs
  | .dispatch views _ _ => views.flatMap View.refs

/-- The references by which a call takes members of checks. -/
def Call.flattenTargets : Call ρ → List ρ
  | .firstNames part => part.flattenTargets
  | .firstChecks part _ => part.flattenTargets
  | .opens part _ _ => part.flattenTargets
  | .take part _ _ => part.flattenTargets
  | .dispatch views _ _ => views.flatMap View.flattenTargets
  | _ => []

namespace Table

/-- References are given ones, and members are taken of objects only. -/
structure Sound (T : Table ρ) (nodes : Set ρ) (refs targets : List ρ) : Prop where
  /-- The references are given. -/
  mem : ∀ r ∈ refs, r ∈ nodes
  /-- Members are taken of objects. -/
  flattenable : ∀ t ∈ targets, T.Flattenable t

variable {T : Table ρ} {nodes : Set ρ} {rank : ρ → Nat} {refs refs' targets targets' : List ρ}

theorem Sound.mono (h : T.Sound nodes refs targets) (hrefs : refs' ⊆ refs)
    (htargets : targets' ⊆ targets) : T.Sound nodes refs' targets' :=
  ⟨fun r hr ↦ h.mem r (hrefs hr), fun t ht ↦ h.flattenable t (htargets ht)⟩

theorem Sound.of_mem (h : ∀ r ∈ refs, r ∈ nodes) : T.Sound nodes refs [] :=
  ⟨h, fun _ ht ↦ absurd ht List.not_mem_nil⟩

theorem Sound.of_isRef {part : Part ρ} {t : ρ}
    (h : T.Sound nodes part.refs part.flattenTargets) (hpart : part.IsRef t) :
    t ∈ nodes ∧ T.Flattenable t := by
  obtain rfl | rfl := hpart
  · exact ⟨h.mem t (List.mem_singleton_self t), h.flattenable t (List.mem_singleton_self t)⟩
  · exact ⟨h.mem t (List.mem_singleton_self t), h.flattenable t (List.mem_singleton_self t)⟩

theorem Flattenable.of_mem {r a : ρ} {alternatives : List ρ} (h : T.Flattenable r)
    (hcheck : T.check r = .oneOf alternatives) (ha : a ∈ alternatives) : T.Flattenable a := by
  cases h with
  | object hcheck' => exact absurd (hcheck.symm.trans hcheck') nofun
  | oneOf hcheck' halternatives =>
    exact halternatives a (Check.oneOf.inj (hcheck.symm.trans hcheck') ▸ ha)

variable (h : T.Ranked nodes rank)
  (hflatten : ∀ r ∈ nodes, ∀ clauses, T.check r = .object clauses →
    ∀ t ∈ groupFlattenTargets clauses, T.Flattenable t)

include h hflatten

/-- What is met when a sound part is unfolded is sound. -/
theorem sound_of_within {part part' : Part ρ} (hwithin : part'.Within T part)
    (hsound : T.Sound nodes part.refs part.flattenTargets) :
    T.Sound nodes part'.refs part'.flattenTargets := by
  have hclause {clauses : List (Clause ρ)} {clause : Clause ρ} (hmem : clause ∈ clauses)
      (hsound : T.Sound nodes (groupRefs clauses) (groupFlattenTargets clauses)) :
      T.Sound nodes clause.refs clause.flattenTargets :=
    hsound.mono (Clause.refs_subset_of_mem hmem) (Clause.flattenTargets_subset_of_mem hmem)
  cases hwithin with
  | optional group => exact hsound
  | sequence hexpands hmem =>
    cases hexpands with
    | group => exact hclause hmem hsound
    | object hpart hcheck =>
      have ht := (hsound.of_isRef hpart).1
      exact hclause hmem ⟨h.mem_of_object ht hcheck, hflatten _ ht _ hcheck⟩
  | alternative hexpands hview =>
    cases hexpands with
    | oneOf groups =>
      obtain ⟨group, hgroup, rfl⟩ := List.mem_map.1 hview
      exact hsound.mono (groupRefs_subset_of_mem hgroup) (groupFlattenTargets_subset_of_mem hgroup)
    | alternatives hpart hcheck =>
      obtain ⟨a, ha, rfl⟩ := List.mem_map.1 hview
      obtain ⟨ht, hflat⟩ := hsound.of_isRef hpart
      exact ⟨List.forall_mem_singleton.2 (h.mem_of_oneOf ht hcheck ha).1,
        List.forall_mem_singleton.2 (hflat.of_mem hcheck ha)⟩

variable [DecidableEq ρ]

omit h hflatten [DecidableEq ρ] in
theorem Sound.of_mem_singleton {r : ρ} (hr : r ∈ nodes) : T.Sound nodes [r] [] :=
  .of_mem (List.forall_mem_singleton.2 hr)

omit h hflatten [DecidableEq ρ] in
/-- One of several views is sound if they are. -/
theorem Sound.of_mem_views {views : List (View ρ)} {view : View ρ} (hview : view ∈ views)
    (hsound : T.Sound nodes (views.flatMap View.refs) (views.flatMap View.flattenTargets)) :
    T.Sound nodes view.refs view.flattenTargets :=
  hsound.mono (fun _ hr ↦ List.mem_flatMap.2 ⟨view, hview, hr⟩)
    fun _ ht ↦ List.mem_flatMap.2 ⟨view, hview, ht⟩

/-- The calls for the failures of a value are sound. Members are taken of the clauses of an object,
or of objects among the branches of a disjunction. -/
theorem Makes.sound_of_check {r : ρ} {path : Path} {value : Json} {call : Call ρ}
    (hmakes : T.Makes (.check r path value) call) (hr : r ∈ nodes) :
    T.Sound nodes call.refs call.flattenTargets := by
  have hbranch {s : ρ} {alternatives : List ρ} {branch : Branch ρ}
      (hcheck : T.check r = .oneOf alternatives) (hbranch : branch ∈ T.branches alternatives value)
      (hs : s ∈ branch.refs) : s ∈ nodes :=
    (h.mem_branches hr hcheck hbranch hs).1
  cases hmakes with
  | @item _ element _ _ _ _ hcheck =>
    exact .of_mem_singleton (h.closed r hr element (by
      rw [hcheck]
      exact List.mem_singleton_self _))
  | members _ _ hcheck => exact ⟨h.mem_of_object hr hcheck, hflatten r hr _ hcheck⟩
  | branches => exact .of_mem_singleton hr
  | alternativesLabels _ _ hcheck => exact .of_mem fun a ha ↦ (h.mem_of_oneOf hr hcheck ha).1
  | single _ hcheck hmem | singleLabels _ hcheck hmem =>
    exact .of_mem_singleton (hbranch hcheck hmem List.mem_cons_self)
  | @objects _ _ objects _ _ hcheck hmem =>
    refine ⟨fun s hs ↦ ?_, fun t ht ↦ ?_⟩
    · obtain ⟨view, hview, hs⟩ := List.mem_flatMap.1 hs
      exact View.mem_of_mem_refs_map_ref (fun _ ↦ hbranch hcheck hmem) view hview s hs
    · have ht : t ∈ objects := (flatMap_flattenTargets_map_ref objects) ▸ ht
      obtain ⟨clauses, hcheck⟩ :=
        exists_clauses_of_isObject ((isObject_of_mem_branches hmem).2 t ht)
      exact .object hcheck
  | objectsLabels _ hcheck hmem => exact .of_mem fun _ ↦ hbranch hcheck hmem

omit hflatten in
theorem Makes.sound_of_branches {r : ρ} {value : Json} {call : Call ρ}
    (hmakes : T.Makes (.branches r value) call) (hr : r ∈ nodes) :
    T.Sound nodes call.refs call.flattenTargets := by
  cases hmakes with
  | alternative _ hcheck ha => exact .of_mem_singleton (h.mem_of_oneOf hr hcheck ha).1
  | leaf _ hcheck hleaf =>
    exact .of_mem_singleton
      (h.mem_splice (fun a ha ↦ (h.mem_of_oneOf hr hcheck ha).1) hleaf).1

/-- The calls for what a part leaves of some members are sound. -/
theorem Makes.sound_of_take {part : Part ρ} {path : Path} {members : Members} {call : Call ρ}
    (hmakes : T.Makes (.take part path members) call)
    (hsound : T.Sound nodes part.refs part.flattenTargets) :
    T.Sound nodes call.refs call.flattenTargets := by
  cases hmakes with
  | named target | many target =>
    exact .of_mem_singleton (hsound.mem target (List.mem_singleton_self target))
  | takeNames _ _ hwithin | take _ hwithin => exact sound_of_within h hflatten hwithin hsound
  | dispatch _ _ hexpands =>
    refine ⟨fun r hr ↦ ?_, fun t ht ↦ ?_⟩
    · obtain ⟨view, hview, hr⟩ := List.mem_flatMap.1 hr
      exact (sound_of_within h hflatten (.alternative hexpands hview) hsound).mem r hr
    · obtain ⟨view, hview, ht⟩ := List.mem_flatMap.1 ht
      exact (sound_of_within h hflatten (.alternative hexpands hview) hsound).flattenable t ht

omit hflatten in
/-- The calls for a choice between views are sound. -/
theorem Makes.sound_of_dispatch {views : List (View ρ)} {path : Path} {members : Members}
    {call : Call ρ} (hmakes : T.Makes (.dispatch views path members) call)
    (hsound : T.Sound nodes (views.flatMap View.refs) (views.flatMap View.flattenTargets)) :
    T.Sound nodes call.refs call.flattenTargets := by
  cases hmakes with
  | viewNames _ _ hmem | viewChecks _ _ _ hmem | viewOpens _ hmem | viewTake _ _ hmem =>
    exact hsound.of_mem_views hmem
  | viewLabels _ _ _ hmem => exact .of_mem (h.mem_firstChecks (hsound.of_mem_views hmem).mem)

/-- The calls that a sound call makes are sound. -/
theorem Makes.sound {call call' : Call ρ} (hmakes : T.Makes call call')
    (hsound : T.Sound nodes call.refs call.flattenTargets) :
    T.Sound nodes call'.refs call'.flattenTargets := by
  cases call with
  | check r =>
    exact hmakes.sound_of_check h hflatten (hsound.mem r (List.mem_singleton_self r))
  | branches r => exact hmakes.sound_of_branches h (hsound.mem r (List.mem_singleton_self r))
  | take => exact hmakes.sound_of_take h hflatten hsound
  | dispatch => exact hmakes.sound_of_dispatch h hsound
  | fits =>
    cases hmakes with
    | fits => exact hsound
  | describe r =>
    have hr := hsound.mem r (List.mem_singleton_self r)
    cases hmakes with
    | describe hcheck => exact .of_mem fun a ha ↦ (h.mem_of_oneOf hr hcheck ha).1
  | describeAll rs =>
    cases hmakes with
    | @labels r _ hr => exact .of_mem_singleton (hsound.mem r hr)
  | firstNames =>
    cases hmakes with
    | firstNames hwithin => exact sound_of_within h hflatten hwithin hsound
  | firstChecks =>
    cases hmakes with
    | firstChecks _ hwithin => exact sound_of_within h hflatten hwithin hsound
  | opens =>
    cases hmakes with
    | opensNames _ _ hwithin | opens _ _ hwithin => exact sound_of_within h hflatten hwithin hsound
    | opensValue _ target =>
      exact .of_mem_singleton (hsound.mem target (List.mem_singleton_self target))

end Table

theorem Call.refs_eq_of_part? {call : Call ρ} {part : Part ρ} (h : call.part? = some part) :
    call.refs = part.refs ∧ call.flattenTargets = part.flattenTargets := by
  cases call with
  | firstNames | firstChecks | opens | take =>
    obtain rfl := Option.some.inj h
    exact ⟨rfl, rfl⟩
  | check | fits | branches | describe | describeAll | dispatch => cases h

/-- A sound call looks up given references only. -/
theorem Call.Looks.mem {T : Table ρ} {nodes : Set ρ} {rank : ρ → Nat} (h : T.Ranked nodes rank)
    {call : Call ρ} {r : ρ} (hlooks : call.Looks T r)
    (hsound : T.Sound nodes call.refs call.flattenTargets) : r ∈ nodes := by
  cases hlooks with
  | check | fits | branches | describe => exact hsound.mem r (List.mem_singleton_self r)
  | @spliced s a _ _ _ hcheck _ ha hr =>
    induction hr with
    | refl => exact (h.mem_of_oneOf (hsound.mem s (List.mem_singleton_self s)) hcheck ha).1
    | tail _ hstep ih =>
      obtain ⟨alternatives, hcheck, ha⟩ := hstep
      exact (h.mem_of_oneOf ih hcheck ha).1
  | part hcall hisRef =>
    obtain ⟨hrefs, htargets⟩ := Call.refs_eq_of_part? hcall
    rw [hrefs, htargets] at hsound
    exact (hsound.of_isRef hisRef).1

end Sound

/-! ### Strict answers -/

namespace Validator

variable {V : Validator} {rank : Nat → Nat}

/-- The slots of a regular validator lead to each other only. -/
theorem Regular.ranked (hregular : V.Regular) (h : V.table.Ranked Set.univ rank) :
    V.table.Ranked (Set.Iio V.size) rank :=
  ⟨fun _ hslot ↦ hregular.refs_lt _ (check_mem_of_lt hslot), fun slot _ ↦ h.lt_hops slot trivial,
    fun slot _ ↦ h.descends slot trivial⟩

/-- A sound call does not stray. -/
theorem not_strays_of_sound (h : V.table.Ranked (Set.Iio V.size) rank) {call : Call Nat}
    (hsound : V.table.Sound (Set.Iio V.size) call.refs call.flattenTargets) : ¬ V.Strays call := by
  intro hstrays
  cases hstrays with
  | beyond hlooks hslot => exact Nat.not_lt.2 hslot (hlooks.mem h hsound)
  | @nothing _ part hcall hexpand =>
    obtain ⟨hrefs, htargets⟩ := Call.refs_eq_of_part? hcall
    rw [hrefs, htargets] at hsound
    have hexpands := V.table.expands part
    rw [hexpand] at hexpands
    cases hexpands with
    | nothing hisRef hobject honeOf =>
      cases (hsound.of_isRef hisRef).2 with
      | object hcheck => exact hobject _ hcheck
      | oneOf hcheck => exact honeOf _ hcheck
  | @folded part clause _ _ hexpand hclause =>
    have hexpands := V.table.expands part
    rw [hexpand] at hexpands
    cases hexpands <;> simp at hclause
  | @unnamed _ _ _ names _ hempty _ hhead =>
    rw [List.head?_eq_none_iff] at hhead
    rw [LabelSet.isEmpty, hhead] at hempty
    cases hempty
  | @missing views _ members names name hnames hname hlookup =>
    obtain ⟨value, hdecides⟩ := Table.exists_decides (hnames ▸ hname)
    exact Option.some_ne_none value (hdecides.lookup_eq.symm.trans hlookup)
  | memberless hcheck hbranches hvalue =>
    have hobject := (Table.isObject_of_mem_branches (hbranches ▸ List.mem_singleton_self _)).1
    exact Bool.false_ne_true (hvalue.symm.trans hobject)

/-- In a regular validator, calls with slots of the validator are answered strictly, over as many
levels as their index. -/
theorem Regular.strictRun_eq (hregular : V.Regular) (h : V.table.Ranked Set.univ rank) {bound : Nat}
    (hsize : ∀ slot, (V.table.check slot).size + 2 ≤ bound) {rounds : Nat}
    (hrounds : ∀ slot alternatives, V.table.check slot = .oneOf alternatives →
      V.table.unravel rounds alternatives [] = some (V.table.splice alternatives))
    {top : Nat} (hrank : ∀ slot, rank slot < top) {levels : Nat} {call : Call Nat}
    (hsound : V.table.Sound (Set.Iio V.size) call.refs call.flattenTargets)
    (hcall : call.size V.table ≤ bound) (hlevels : call.index V.table rank top bound < levels) :
    V.strictRun rounds levels call = some (V.table.answer call) := by
  have hranked := hregular.ranked h
  have hflatten : ∀ slot ∈ Set.Iio V.size, ∀ clauses, V.table.check slot = .object clauses →
      ∀ t ∈ groupFlattenTargets clauses, V.table.Flattenable t :=
    fun slot hslot clauses hcheck ↦ hregular.flattenable clauses (hcheck ▸ check_mem_of_lt hslot)
  refine Table.answers_eq
    (P := fun call ↦ V.table.Sound (Set.Iio V.size) call.refs call.flattenTargets)
    h hsize (V.strictRun rounds) hrounds ?_ ?_ hrank hsound hcall hlevels
  · exact fun call call' hsound hmakes ↦ hmakes.sound hranked hflatten hsound
  · intro levels call hsound
    rw [strictRun, if_neg (not_strays_of_sound hranked hsound)]

end Validator

end JsonPattern
