import JsonPattern.Proofs.Validator.Measure

/-!
# Calls within calls

`Table.Makes` relates a call to the calls that it makes, if those are answered rightly: which
checks, parts and members it passes on. Everything that is known of these calls is derived from it
by cases, first of all that they are smaller, `Table.Makes.below`.

## Main definitions

* `Part.Within` : what is met when a part is unfolded.
* `Table.Makes` : the calls that a call makes.

## Main results

* `Table.Ranked.part_induction` : induction on what is met when a part is unfolded.
* `Table.Makes.below` : the calls that a call makes are below it, from one lemma for each function.
-/

namespace JsonPattern

variable {ρ : Type}

/-- A part is met when another one is unfolded. -/
inductive Part.Within (T : Table ρ) : Part ρ → Part ρ → Prop
  | optional (group : List (Clause ρ)) :
      Within T (.view (.group group)) (.clause (.optional group))
  | sequence {part : Part ρ} {clauses : List (Clause ρ)} {clause : Clause ρ}
      (hexpands : Expands T part (.sequence clauses)) (hclause : clause ∈ clauses) :
      Within T (.clause clause) part
  | alternative {part : Part ρ} {views : List (View ρ)} {view : View ρ}
      (hexpands : Expands T part (.alternatives views)) (hview : view ∈ views) :
      Within T (.view view) part

namespace Table

variable [DecidableEq ρ]

/-- A call makes another one, if the calls that it makes are answered rightly. -/
inductive Makes (T : Table ρ) : Call ρ → Call ρ → Prop
  -- the failures of a value
  | item {r element : ρ} {path : Path} {items : List Json} {item : Json} (i : Nat)
      (hcheck : T.check r = .arrayOf element) (hitem : item ∈ items) :
      Makes T (.check r path (.array items)) (.check element (path.item i) item)
  | members {r : ρ} {clauses : List (Clause ρ)} (path : Path) (members : Members)
      (hcheck : T.check r = .object clauses) :
      Makes T (.check r path (.object members)) (.take (.view (.group clauses)) path members)
  | branches {r : ρ} {alternatives : List ρ} (path : Path) (value : Json)
      (hcheck : T.check r = .oneOf alternatives) :
      Makes T (.check r path value) (.branches r value)
  | alternativesLabels {r : ρ} {alternatives : List ρ} (path : Path) (value : Json)
      (hcheck : T.check r = .oneOf alternatives) :
      Makes T (.check r path value) (.describeAll alternatives)
  | single {r only : ρ} {alternatives : List ρ} {value : Json} (path : Path)
      (hcheck : T.check r = .oneOf alternatives)
      (hbranch : .single only ∈ T.branches alternatives value) :
      Makes T (.check r path value) (.check only path value)
  | singleLabels {r only : ρ} {alternatives : List ρ} {value : Json} (path : Path)
      (hcheck : T.check r = .oneOf alternatives)
      (hbranch : .single only ∈ T.branches alternatives value) :
      Makes T (.check r path value) (.describe only)
  | objects {r : ρ} {alternatives objects : List ρ} {members : Members} (path : Path)
      (hcheck : T.check r = .oneOf alternatives)
      (hbranch : .objects objects ∈ T.branches alternatives (.object members)) :
      Makes T (.check r path (.object members)) (.dispatch (objects.map .ref) path members)
  | objectsLabels {r : ρ} {alternatives objects : List ρ} {value : Json} (path : Path)
      (hcheck : T.check r = .oneOf alternatives)
      (hbranch : .objects objects ∈ T.branches alternatives value) :
      Makes T (.check r path value) (.describeAll objects)
  -- shallow looks and labels
  | fits {r : ρ} {alternatives : List ρ} (value : Json)
      (hcheck : T.check r = .oneOf alternatives) :
      Makes T (.fits r value) (.branches r value)
  | alternative {r a : ρ} {alternatives : List ρ} (value : Json)
      (hcheck : T.check r = .oneOf alternatives) (ha : a ∈ alternatives) :
      Makes T (.branches r value) (.fits a value)
  | leaf {r leaf : ρ} {alternatives : List ρ} (value : Json)
      (hcheck : T.check r = .oneOf alternatives) (hleaf : leaf ∈ T.splice alternatives) :
      Makes T (.branches r value) (.fits leaf value)
  | describe {r : ρ} {alternatives : List ρ} (hcheck : T.check r = .oneOf alternatives) :
      Makes T (.describe r) (.describeAll alternatives)
  | labels {r : ρ} {rs : List ρ} (hr : r ∈ rs) : Makes T (.describeAll rs) (.describe r)
  -- what opens a part
  | firstNames {part part' : Part ρ} (hpart : part'.Within T part) :
      Makes T (.firstNames part) (.firstNames part')
  | firstChecks {part part' : Part ρ} (name : String) (hpart : part'.Within T part) :
      Makes T (.firstChecks part name) (.firstChecks part' name)
  | opensNames {part part' : Part ρ} (name : String) (value : Json)
      (hpart : part'.Within T part) :
      Makes T (.opens part name value) (.firstNames part')
  | opens {part part' : Part ρ} (name : String) (value : Json) (hpart : part'.Within T part) :
      Makes T (.opens part name value) (.opens part' name value)
  | opensValue (own : String) (target : ρ) (name : String) (value : Json) :
      Makes T (.opens (.clause (.named own target)) name value) (.fits target value)
  -- what is left when a part takes members
  | named {name : String} {value : Json} {members : Members} (target : ρ) (path : Path)
      (hlookup : members.lookup name = some value) :
      Makes T (.take (.clause (.named name target)) path members)
        (.check target (path.member name) value)
  | many {member : String × Json} {members : Members} (target : ρ) (path : Path)
      (hmember : member ∈ members) :
      Makes T (.take (.clause (.many target)) path members)
        (.check target (path.member member.1) member.2)
  | takeNames {part part' : Part ρ} (path : Path) (members : Members)
      (hpart : part'.Within T part) :
      Makes T (.take part path members) (.firstNames part')
  | take {part part' : Part ρ} {members rest : Members} (path : Path)
      (hpart : part'.Within T part) (hrest : rest.Sublist members) :
      Makes T (.take part path members) (.take part' path rest)
  | dispatch {part : Part ρ} {views : List (View ρ)} (path : Path) (members : Members)
      (hexpands : Expands T part (.alternatives views)) :
      Makes T (.take part path members) (.dispatch views path members)
  -- what is left when one of several views takes members
  | viewNames {views : List (View ρ)} {view : View ρ} (path : Path) (members : Members)
      (hview : view ∈ views) :
      Makes T (.dispatch views path members) (.firstNames (.view view))
  | viewChecks {views : List (View ρ)} {view : View ρ} (path : Path) (members : Members)
      (name : String) (hview : view ∈ views) :
      Makes T (.dispatch views path members) (.firstChecks (.view view) name)
  | viewLabels {views : List (View ρ)} {view : View ρ} (path : Path) (members : Members)
      (name : String) (hview : view ∈ views) :
      Makes T (.dispatch views path members) (.describeAll (T.firstChecks name view))
  | viewOpens {views : List (View ρ)} {view : View ρ} {members : Members} {name : String}
      {value : Json} (path : Path) (hview : view ∈ views)
      (hlookup : members.lookup name = some value) :
      Makes T (.dispatch views path members) (.opens (.view view) name value)
  | viewTake {views : List (View ρ)} {view : View ρ} (path : Path) (members : Members)
      (hview : view ∈ views) :
      Makes T (.dispatch views path members) (.take (.view view) path members)

variable {T : Table ρ} {rank : ρ → Nat} {bound : Nat}

section Below

variable (h : T.Ranked Set.univ rank) (hsize : ∀ r, (T.check r).size + 2 ≤ bound)

include h hsize

omit [DecidableEq ρ] in
/-- A part that is met when another one is unfolded is smaller. -/
theorem smaller_of_within {part part' : Part ρ} (hpart : part'.Within T part) :
    Part.Smaller rank bound part' part := by
  cases hpart with
  | optional group => exact Part.smaller_of_optional group
  | sequence hexpands hclause => exact Part.smaller_of_sequence h hsize hexpands hclause
  | alternative hexpands hview => exact Part.smaller_of_mem_alternatives h hsize hexpands hview

omit [DecidableEq ρ] in
/-- What holds of a part if it holds of all that is met when the part is unfolded, holds of every
part. -/
theorem Ranked.part_induction {P : Part ρ → Prop}
    (step : ∀ part, (∀ part', part'.Within T part → P part') → P part) (part : Part ρ) :
    P part := by
  induction hmeasure : toLex (height rank part.flattenTargets, part.size)
    using WellFoundedLT.induction generalizing part with
  | ind m ih =>
    subst hmeasure
    refine step part fun part' hwithin ↦ ih _ ?_ part' rfl
    obtain ⟨hle, hlt, -⟩ := smaller_of_within h hsize hwithin
    rw [Prod.Lex.toLex_lt_toLex]
    rcases hle.lt_or_eq with hheight | hheight
    · exact .inl hheight
    · exact .inr ⟨hheight, hlt.resolve_left hheight.not_lt⟩

omit [DecidableEq ρ] h in
/-- A shallow look at a check, or at its labels, is of bounded size. -/
theorem one_le_bound (r : ρ) : 1 ≤ bound :=
  le_trans (by omega) (hsize r)

/-- The calls for the failures of a value go to items, to the clauses of an object, and to the
branches of a disjunction and their labels. -/
theorem Makes.below_of_check {r : ρ} {path : Path} {value : Json} {call : Call ρ}
    (hmakes : T.Makes (.check r path value) call) :
    call.Below T rank bound (.check r path value) := by
  have hbranches {s : ρ} {alternatives : List ρ} {branch : Branch ρ}
      (hcheck : T.check r = .oneOf alternatives) (hbranch : branch ∈ T.branches alternatives value)
      (hs : s ∈ branch.refs) : rank s < rank r :=
    (h.mem_branches (Set.mem_univ r) hcheck hbranch hs).2
  cases hmakes with
  | @item _ element _ items item i hcheck hitem =>
    exact .of_depth_lt ((hsize element).trans (le_max_left ..))
      (Nat.lt_succ_of_le (Json.depth_le_itemsDepth hitem))
  | @members _ clauses _ members hcheck =>
    have hlt : groupSize clauses < (T.check r).size + 2 := by
      rw [hcheck, Check.size]
      omega
    have hheight : height rank (groupFlattenTargets clauses) ≤ rank r :=
      height_le_iff.2 fun t ht ↦ (h.target_of_object (Set.mem_univ r) hcheck t ht).2
    exact .of_le (hlt.le.trans (le_max_right ..)) le_rfl hheight (.inr hlt)
  | branches => exact .of_le (Nat.zero_le _) le_rfl le_rfl (.inr (Nat.succ_pos _))
  | alternativesLabels _ _ hcheck =>
    exact .of_le (Nat.zero_le _) (Nat.zero_le _) (h.height_alternatives_le hcheck)
      (.inr (Nat.succ_pos _))
  | @single _ only _ _ _ hcheck hbranch =>
    have honly := hbranches hcheck hbranch List.mem_cons_self
    exact .of_le ((hsize only).trans (le_max_left ..)) le_rfl honly.le (.inl honly)
  | @singleLabels _ only _ _ _ hcheck hbranch =>
    have honly := hbranches hcheck hbranch List.mem_cons_self
    exact .of_le ((one_le_bound hsize only).trans (le_max_left ..)) (Nat.zero_le _) honly.le
      (.inl honly)
  | @objects _ _ objects members _ hcheck hbranch =>
    have hsum : Call.size T (.dispatch (objects.map .ref) path members) = 1 :=
      congrArg (· + 1) (sum_size_map_ref objects)
    have hheight : Call.rankBy rank (.dispatch (objects.map .ref) path members) ≤ rank r :=
      height_le_iff.2 ((flatMap_flattenTargets_map_ref objects).symm ▸
        fun _ ↦ hbranches hcheck hbranch)
    exact .of_le (hsum ▸ le_max_of_le_right (Nat.succ_pos _)) le_rfl hheight
      (.inr (hsum ▸ Nat.succ_lt_succ (Nat.succ_pos _)))
  | objectsLabels _ hcheck hbranch =>
    exact .of_le (Nat.zero_le _) (Nat.zero_le _)
      (height_le_iff.2 fun _ ↦ hbranches hcheck hbranch) (.inr (Nat.succ_pos _))

/-- The calls for the branches of a disjunction look at alternatives or, against an object, at
leaves. -/
theorem Makes.below_of_branches {r : ρ} {value : Json} {call : Call ρ}
    (hmakes : T.Makes (.branches r value) call) : call.Below T rank bound (.branches r value) := by
  have hlook {s : ρ} (hs : rank s < rank r) :
      (Call.fits s value).Below T rank bound (.branches r value) :=
    .of_le ((one_le_bound hsize s).trans (le_max_left ..)) le_rfl hs.le (.inl hs)
  cases hmakes with
  | alternative _ hcheck ha => exact hlook (h.mem_of_oneOf (Set.mem_univ r) hcheck ha).2
  | leaf _ hcheck hleaf =>
    obtain ⟨-, a, ha, hle⟩ := h.mem_splice (fun _ _ ↦ Set.mem_univ _) hleaf
    exact hlook (hle.trans_lt (h.mem_of_oneOf (Set.mem_univ r) hcheck ha).2)

/-- The calls for the look of a value at what opens a part concern what is met when the part is
unfolded, or the value of a member. -/
theorem Makes.below_of_opens {part : Part ρ} {name : String} {value : Json} {call : Call ρ}
    (hmakes : T.Makes (.opens part name value) call) :
    call.Below T rank bound (.opens part name value) := by
  cases hmakes with
  | opensNames _ _ hwithin =>
    exact .of_depth_lt (smaller_of_within h hsize hwithin).size_le (Nat.succ_pos _)
  | opens _ _ hwithin =>
    have hsmaller := smaller_of_within h hsize hwithin
    exact .of_le hsmaller.size_le le_rfl hsmaller.height_le hsmaller.lt
  | opensValue own target =>
    exact .of_depth_lt ((one_le_bound hsize target).trans (le_max_left ..))
      (Nat.lt_succ_self _)

/-- The calls for what a part leaves of some members check the values of members, or concern what is
met when the part is unfolded. -/
theorem Makes.below_of_take {part : Part ρ} {path : Path} {members : Members} {call : Call ρ}
    (hmakes : T.Makes (.take part path members) call) :
    call.Below T rank bound (.take part path members) := by
  have hvalue (target : ρ) (path' : Path) {member : String × Json} (hmember : member ∈ members) :
      (Call.check target path' member.2).Below T rank bound (.take part path members) :=
    .of_depth_lt ((hsize target).trans (le_max_left ..))
      (Nat.lt_succ_of_le (Json.depth_le_membersDepth hmember))
  cases hmakes with
  | named target _ hlookup => exact hvalue target _ (Members.mem_of_lookup hlookup)
  | many target _ hmember => exact hvalue target _ hmember
  | takeNames _ _ hwithin =>
    exact .of_depth_lt (smaller_of_within h hsize hwithin).size_le (Nat.succ_pos _)
  | take _ hwithin hrest =>
    have hsmaller := smaller_of_within h hsize hwithin
    exact .of_le hsmaller.size_le (Nat.succ_le_succ (Json.membersDepth_mono hrest.subset))
      hsmaller.height_le hsmaller.lt
  | dispatch _ _ hexpands =>
    obtain ⟨hheight, hlt, hle⟩ := Part.smaller_of_alternatives h hsize hexpands
    exact .of_le hle le_rfl hheight hlt

omit h hsize in
/-- The calls for a choice between views concern one of the views. -/
theorem Makes.below_of_dispatch {views : List (View ρ)} {path : Path} {members : Members}
    {call : Call ρ} (hmakes : T.Makes (.dispatch views path members) call) :
    call.Below T rank bound (.dispatch views path members) := by
  have hlt {view : View ρ} (hview : view ∈ views) : view.size < (views.map View.size).sum + 1 :=
    Nat.lt_succ_of_le (List.le_sum_of_mem (List.mem_map_of_mem hview))
  have hle {view : View ρ} (hview : view ∈ views) :
      view.size ≤ max bound ((views.map View.size).sum + 1) :=
    (hlt hview).le.trans (le_max_right ..)
  have hheight {view : View ρ} (hview : view ∈ views) :
      height rank view.flattenTargets ≤ height rank (views.flatMap View.flattenTargets) :=
    height_mono fun s hs ↦ List.mem_flatMap.2 ⟨view, hview, hs⟩
  cases hmakes with
  | viewNames _ _ hview => exact .of_depth_lt (hle hview) (Nat.succ_pos _)
  | viewChecks _ _ _ hview => exact .of_depth_lt (hle hview) (Nat.succ_pos _)
  | viewLabels => exact .of_depth_lt (Nat.zero_le _) (Nat.succ_pos _)
  | viewOpens _ hview hlookup =>
    have hdepth := Json.depth_le_membersDepth (Members.mem_of_lookup hlookup)
    exact .of_le (hle hview) (Nat.succ_le_succ hdepth) (hheight hview) (.inr (hlt hview))
  | viewTake _ _ hview => exact .of_le (hle hview) le_rfl (hheight hview) (.inr (hlt hview))

/-- The calls that a call makes are below it. -/
theorem Makes.below {call call' : Call ρ} (hmakes : T.Makes call call') :
    call'.Below T rank bound call := by
  cases call with
  | check => exact hmakes.below_of_check h hsize
  | branches => exact hmakes.below_of_branches h hsize
  | opens => exact hmakes.below_of_opens h hsize
  | take => exact hmakes.below_of_take h hsize
  | dispatch => exact hmakes.below_of_dispatch
  | fits r value =>
    cases hmakes with
    | fits => exact .of_le (Nat.zero_le _) le_rfl le_rfl (.inr Nat.one_pos)
  | describe r =>
    cases hmakes with
    | describe hcheck =>
      exact .of_le (Nat.zero_le _) le_rfl (h.height_alternatives_le hcheck) (.inr Nat.one_pos)
  | describeAll rs =>
    cases hmakes with
    | @labels r _ hr =>
      exact .of_le ((one_le_bound hsize r).trans (le_max_left ..)) le_rfl (lt_height hr).le
        (.inl (lt_height hr))
  | firstNames part =>
    cases hmakes with
    | firstNames hwithin =>
      have hsmaller := smaller_of_within h hsize hwithin
      exact .of_le hsmaller.size_le le_rfl hsmaller.height_le hsmaller.lt
  | firstChecks part name =>
    cases hmakes with
    | firstChecks _ hwithin =>
      have hsmaller := smaller_of_within h hsize hwithin
      exact .of_le hsmaller.size_le le_rfl hsmaller.height_le hsmaller.lt

end Below

end Table

end JsonPattern
