import JsonPattern.Proofs.Json.Members
import JsonPattern.Proofs.Validator.Origins

/-!
# Accounts of members

While members are taken, things happen one after the other: a failure is reported, or the value of a
member is handed to a check. Which things happen does not depend on what the checks make of the
values, so the events can be told before any value is checked. They account for the members: each
one that is taken away is handed to a check that the clauses offer for it, or a failure stands at
its path, and none is handed twice.

## Main definitions

* `Event` : what happens while members are taken.
* `Accounted` : events account for the members that are taken away.
* `Table.Accounts`, `Table.HasAccounts` : the same events happen, however values are checked.

## Main results

* `Table.Ranked.hasAccounts` : whatever takes members has accounts for them.
* `Table.Ranked.origin` : where a failure of a value comes from.
* `Table.Ranked.failures_atOrBelow` : a failure is reported at the path of the value or inside it.
* `Table.Ranked.accepted_of_accounts` : a member that is taken away fails, or is accepted.
-/

namespace JsonPattern

variable {ρ : Type}

/-- A place is another one or lies inside it. -/
def Path.AtOrBelow (place top : Path) : Prop := top.steps <+: place.steps

theorem Path.atOrBelow_refl (path : Path) : path.AtOrBelow path := List.prefix_refl _

theorem Path.AtOrBelow.trans {place inner top : Path} (h : place.AtOrBelow inner)
    (h' : inner.AtOrBelow top) : place.AtOrBelow top :=
  List.IsPrefix.trans h' h

theorem Path.child_atOrBelow (path : Path) (step : Step) : (path.child step).AtOrBelow path :=
  List.prefix_append ..

/-- What happens while members are taken. -/
inductive Event (ρ : Type)
  /-- A failure is reported. -/
  | failed (failure : Failure)
  /-- The value of a member is handed to a check. -/
  | handed (r : ρ) (name : String) (value : Json)

namespace Event

/-- The failures that come of an event at a path, by the failures of the values handed over. -/
def failures (deeper : PartCheck ρ) (path : Path) : Event ρ → List Failure
  | .failed failure => [failure]
  | .handed r name value => deeper r (path.member name) value

/-- The name of the member that is handed over. -/
def name? : Event ρ → Option String
  | .failed _ => none
  | .handed _ name _ => some name

end Event

/-! ### Members that are taken -/

namespace Members

variable {members rest : Members} {name : String} {value : Json}

theorem names_sublist (h : rest.Sublist members) : rest.names.Sublist members.names :=
  List.Sublist.map Prod.fst h

theorem mem_names_without {other : String} :
    other ∈ (members.without name).names ↔ other ∈ members.names ∧ other ≠ name := by
  rw [without_eq_outside, mem_names_outside, List.mem_singleton]

theorem notMem_names_without (members : Members) (name : String) :
    name ∉ (members.without name).names :=
  fun hmem ↦ (mem_names_without.1 hmem).2 rfl

end Members

/-! ### Accounts -/

/-- Events account for the members that are taken away. -/
structure Accounted (path : Path) (offers : String → ρ → Prop) (members rest : Members)
    (events : List (Event ρ)) : Prop where
  /-- What is left keeps its order. -/
  sublist : rest.Sublist members
  /-- A failure is reported at the path itself or at a member that is taken away. -/
  failed_at : ∀ failure, .failed failure ∈ events → failure.path = path ∨
    ∃ name ∈ members.names, name ∉ rest.names ∧ failure.path = path.member name
  /-- What is handed over is a member that is taken away, and the check is one offered for it. -/
  handed : ∀ r name value, .handed r name value ∈ events →
    (name, value) ∈ members ∧ name ∉ rest.names ∧ offers name r
  /-- Nothing is handed over twice. -/
  nodup : members.names.Nodup → (events.filterMap Event.name?).Nodup
  /-- A member that is taken away is handed over, or a failure is reported at it. -/
  taken : ∀ name ∈ members.names, name ∉ rest.names →
    (∃ failure, .failed failure ∈ events ∧ failure.path = path.member name) ∨
      ∃ r value, .handed r name value ∈ events

namespace Accounted

variable {path : Path} {offers offers' : String → ρ → Prop} {members rest rest' : Members}
  {events events' : List (Event ρ)} {failure : Failure} {name : String} {value : Json}

theorem nothing : Accounted path offers members members [] where
  sublist := .refl members
  failed_at _ h := absurd h List.not_mem_nil
  handed _ _ _ h := absurd h List.not_mem_nil
  nodup _ := List.nodup_nil
  taken _ hname hrest := absurd hname hrest

/-- A failure at the path leaves the members. -/
theorem here (h : failure.path = path) :
    Accounted path offers members members [.failed failure] where
  sublist := .refl members
  failed_at other hother := by
    cases List.mem_singleton.1 hother
    exact .inl h
  handed _ _ _ h := by cases List.mem_singleton.1 h
  nodup _ := List.nodup_nil
  taken _ hname hrest := absurd hname hrest

/-- A failure at a member takes the member away. -/
theorem atMember (hlookup : members.lookup name = some value)
    (h : failure.path = path.member name) :
    Accounted path offers members (members.without name) [.failed failure] where
  sublist := members.without_sublist name
  failed_at other hother := by
    cases List.mem_singleton.1 hother
    refine .inr ⟨name, Members.mem_names_of_mem (Members.mem_of_lookup hlookup), ?_, h⟩
    exact members.notMem_names_without name
  handed _ _ _ h := by cases List.mem_singleton.1 h
  nodup _ := List.nodup_nil
  taken other hother hrest := by
    have hname : other = name := by
      by_contra hne
      exact hrest (Members.mem_names_without.2 ⟨hother, hne⟩)
    exact .inl ⟨failure, List.mem_cons_self, hname ▸ h⟩

/-- A member that is handed over is taken away. -/
theorem handOver {r : ρ} (hlookup : members.lookup name = some value) (hoffers : offers name r) :
    Accounted path offers members (members.without name) [.handed r name value] where
  sublist := members.without_sublist name
  failed_at _ h := by cases List.mem_singleton.1 h
  handed r name value h := by
    cases List.mem_singleton.1 h
    refine ⟨Members.mem_of_lookup hlookup, ?_, hoffers⟩
    exact members.notMem_names_without name
  nodup _ := List.pairwise_singleton _ name
  taken other hother hrest := by
    have hname : other = name := by
      by_contra hne
      exact hrest (Members.mem_names_without.2 ⟨hother, hne⟩)
    exact .inr ⟨r, value, hname ▸ List.mem_cons_self⟩

/-- All members are handed over. -/
theorem handOverAll {r : ρ} (hoffers : ∀ name, offers name r) :
    Accounted path offers members [] (members.map fun (name, value) ↦ .handed r name value) where
  sublist := List.nil_sublist members
  failed_at _ h := by
    obtain ⟨_, _, he⟩ := List.mem_map.1 h
    cases he
  handed r name value h := by
    obtain ⟨member, hmember, he⟩ := List.mem_map.1 h
    cases he
    exact ⟨hmember, List.not_mem_nil, hoffers _⟩
  nodup hnodup := by
    rw [List.filterMap_map]
    have hname : Event.name? ∘ (fun ((name, value) : String × Json) ↦ Event.handed r name value) =
        some ∘ Prod.fst := rfl
    rw [hname, ← List.filterMap_map, List.filterMap_some]
    exact hnodup
  taken name hname _ := by
    obtain ⟨⟨name, value⟩, hmember, rfl⟩ := List.mem_map.1 hname
    exact .inr ⟨r, value, List.mem_map.2 ⟨(name, value), hmember, rfl⟩⟩

theorem mono (h : Accounted path offers members rest events)
    (hoffers : ∀ name r, offers name r → offers' name r) :
    Accounted path offers' members rest events where
  sublist := h.sublist
  failed_at := h.failed_at
  handed r name value hevent := by
    obtain ⟨hmember, hrest, hname⟩ := h.handed r name value hevent
    exact ⟨hmember, hrest, hoffers name r hname⟩
  nodup := h.nodup
  taken := h.taken

/-- The names handed over are no longer among the members. -/
theorem notMem_of_mem_names (h : Accounted path offers members rest events)
    (hname : name ∈ events.filterMap Event.name?) : name ∈ members.names ∧ name ∉ rest.names := by
  obtain ⟨event, hevent, he⟩ := List.mem_filterMap.1 hname
  cases event with
  | failed failure => cases he
  | handed r own value =>
    cases he
    obtain ⟨hmember, hrest, -⟩ := h.handed r name value hevent
    exact ⟨Members.mem_names_of_mem hmember, hrest⟩

/-- What takes from the members that are left is accounted for after what took before. -/
theorem andThen (h : Accounted path offers members rest events)
    (h' : Accounted path offers rest rest' events') :
    Accounted path offers members rest' (events ++ events') where
  sublist := h'.sublist.trans h.sublist
  failed_at failure hfailure := by
    rcases List.mem_append.1 hfailure with hfailure | hfailure
    · refine (h.failed_at failure hfailure).imp id ?_
      rintro ⟨name, hname, hrest, hpath⟩
      exact ⟨name, hname, fun hmem ↦ hrest ((Members.names_sublist h'.sublist).subset hmem), hpath⟩
    · refine (h'.failed_at failure hfailure).imp id ?_
      rintro ⟨name, hname, hrest, hpath⟩
      exact ⟨name, (Members.names_sublist h.sublist).subset hname, hrest, hpath⟩
  handed r name value hevent := by
    rcases List.mem_append.1 hevent with hevent | hevent
    · obtain ⟨hmember, hrest, hoffers⟩ := h.handed r name value hevent
      exact ⟨hmember, fun hmem ↦ hrest ((Members.names_sublist h'.sublist).subset hmem), hoffers⟩
    · obtain ⟨hmember, hrest, hoffers⟩ := h'.handed r name value hevent
      exact ⟨h.sublist.subset hmember, hrest, hoffers⟩
  nodup hnodup := by
    rw [List.filterMap_append]
    refine List.nodup_append.2 ⟨h.nodup hnodup,
      h'.nodup (hnodup.sublist (Members.names_sublist h.sublist)), ?_⟩
    rintro name hname other hother rfl
    exact (h.notMem_of_mem_names hname).2 (h'.notMem_of_mem_names hother).1
  taken name hname hrest := by
    by_cases hmem : name ∈ rest.names
    · rcases h'.taken name hmem hrest with ⟨failure, hfailure, hpath⟩ | ⟨r, value, hevent⟩
      · exact .inl ⟨failure, List.mem_append_right _ hfailure, hpath⟩
      · exact .inr ⟨r, value, List.mem_append_right _ hevent⟩
    · rcases h.taken name hname hmem with ⟨failure, hfailure, hpath⟩ | ⟨r, value, hevent⟩
      · exact .inl ⟨failure, List.mem_append_left _ hfailure, hpath⟩
      · exact .inr ⟨r, value, List.mem_append_left _ hevent⟩

end Accounted

namespace Table

variable {T : Table ρ}

/-- The clauses of a part have a named clause of that name, or a clause for all members, with a
given check of the value: by itself, in an optional group, in one of several groups, or in a
flattened check. -/
inductive Offers (T : Table ρ) : Part ρ → String → ρ → Prop
  | named (name : String) (r : ρ) : Offers T (.clause (.named name r)) name r
  | many (name : String) (r : ρ) : Offers T (.clause (.many r)) name r
  | optional {group : List (Clause ρ)} {name : String} {r : ρ}
      (h : Offers T (.view (.group group)) name r) : Offers T (.clause (.optional group)) name r
  | flatten {target : ρ} {name : String} {r : ρ} (h : Offers T (.view (.ref target)) name r) :
      Offers T (.clause (.flatten target)) name r
  | oneOf {groups : List (List (Clause ρ))} {group : List (Clause ρ)} {name : String} {r : ρ}
      (hgroup : group ∈ groups) (h : Offers T (.view (.group group)) name r) :
      Offers T (.clause (.oneOf groups)) name r
  | group {clauses : List (Clause ρ)} {clause : Clause ρ} {name : String} {r : ρ}
      (hclause : clause ∈ clauses) (h : Offers T (.clause clause) name r) :
      Offers T (.view (.group clauses)) name r
  | object {target : ρ} {clauses : List (Clause ρ)} {name : String} {r : ρ}
      (hcheck : T.check target = .object clauses) (h : Offers T (.view (.group clauses)) name r) :
      Offers T (.view (.ref target)) name r
  | alternative {target a : ρ} {alternatives : List ρ} {name : String} {r : ρ}
      (hcheck : T.check target = .oneOf alternatives) (ha : a ∈ alternatives)
      (h : Offers T (.view (.ref a)) name r) : Offers T (.view (.ref target)) name r

variable [DecidableEq ρ]

/-- How a part takes members, given how values are checked. -/
def takePartBy (T : Table ρ) (deeper : PartCheck ρ) (path : Path) : Part ρ → Members → Outcome
  | .clause clause => T.takeClause deeper (T.takeTargetWithin deeper path T.hops) path clause
  | .view view => T.takeView deeper path view

theorem takePartBy_failures (path : Path) (part : Part ρ) :
    T.takePartBy T.failures path part = T.takePart path part := by
  cases part <;> rfl

/-- However values are checked, the same events happen, and they account for the members. -/
structure Accounts (path : Path) (offers : String → ρ → Prop)
    (take : PartCheck ρ → Members → Outcome) (members rest : Members) (events : List (Event ρ)) :
    Prop extends Accounted path offers members rest events where
  /-- The failures are those that come of the events. -/
  take_eq : ∀ deeper : PartCheck ρ,
    take deeper members = ⟨rest, events.flatMap (Event.failures deeper path)⟩

/-- A part has accounts for any members. -/
def HasAccounts (T : Table ρ) (path : Path) (part : Part ρ) : Prop :=
  ∀ members, ∃ rest events,
    Accounts path (T.Offers part) (fun deeper ↦ T.takePartBy deeper path part) members rest events

/-! ### One step -/

section Steps

variable {path : Path}

/-- What one of several views takes is accounted for if what each of them takes is. -/
theorem exists_accounts_of_views (offers : String → ρ → Prop) {views : List (View ρ)}
    (hoffers : ∀ view ∈ views, ∀ name r, T.Offers (.view view) name r → offers name r)
    (h : ∀ view ∈ views, T.HasAccounts path (.view view)) (members : Members) :
    ∃ rest events, Accounts path offers
      (fun deeper ↦ T.dispatch path (alternativesOf (T.takeView deeper path) views)) members rest
      events := by
  rcases T.dispatch_eq_or_decides path views members with
    hconst | ⟨name, value, winner, hdecides, hwinner⟩
  -- No view takes members, so it is enough to look at the dispatch between views that keep them.
  · have htake (deeper : PartCheck ρ) := hconst (T.takeView deeper path) fun _ ↦ .keep
    have hdispatched := T.dispatched path (alternativesOf (fun _ ↦ .keep) views) members
    generalize T.dispatch path (alternativesOf (fun _ ↦ .keep) views) members = outcome
      at htake hdispatched
    cases hdispatched with
    | closed expected => exact ⟨members, [.failed _], .here rfl, htake⟩
    | torn names overlapping => exact ⟨members, [.failed _], .here rfl, htake⟩
    | unmatched expected hname => exact ⟨_, [.failed _], .atMember hname.lookup_eq rfl, htake⟩
    | chosen hname hfilter =>
      obtain ⟨view, -, rfl⟩ := List.mem_map.1 (List.mem_of_mem_filter
        (hfilter ▸ List.mem_cons_self))
      exact ⟨members, [], .nothing, htake⟩
    | claimed overlapping hname => exact ⟨_, [.failed _], .atMember hname.lookup_eq rfl, htake⟩
  · have hmem : winner ∈ views := List.mem_of_mem_filter (hwinner ▸ List.mem_cons_self)
    obtain ⟨rest, events, haccounts⟩ := h winner hmem members
    refine ⟨rest, events, haccounts.toAccounted.mono (hoffers winner hmem), fun deeper ↦ ?_⟩
    exact (hdecides.dispatch_alternativesOf hwinner _).trans (haccounts.take_eq deeper)

mutual

theorem hasAccounts_clause : (clause : Clause ρ) →
    (∀ t ∈ clause.flattenTargets, T.HasAccounts path (.view (.ref t))) →
    T.HasAccounts path (.clause clause)
  | .named name r, _ => fun members ↦ by
    cases hlookup : members.lookup name with
    | some value =>
      refine ⟨_, _, .handOver hlookup (.named name r), fun deeper ↦ ?_⟩
      simp [takePartBy, takeClause, hlookup, Event.failures]
    | none =>
      refine ⟨_, [.failed (.unexpected path (namesText members.names) (nameLabel name))], .here rfl,
        fun deeper ↦ ?_⟩
      simp [takePartBy, takeClause, hlookup, Event.failures]
  | .optional group, htarget => fun members ↦ by
    cases hpresent : (T.present (.group group) members).isEmpty with
    | true =>
      refine ⟨_, _, .nothing, fun deeper ↦ ?_⟩
      rw [takePartBy, takeClause, if_pos hpresent]
      rfl
    | false =>
      obtain ⟨rest, events, haccounts⟩ := hasAccounts_group group htarget members
      refine ⟨rest, events, haccounts.toAccounted.mono fun _ _ ↦ .optional, fun deeper ↦ ?_⟩
      rw [takePartBy, takeClause, hpresent, if_neg Bool.false_ne_true]
      exact haccounts.take_eq deeper
  | .many r, _ => fun members ↦ by
    refine ⟨_, _, .handOverAll fun name ↦ .many name r, fun deeper ↦ ?_⟩
    rw [takePartBy, takeClause, List.flatMap_map]
    rfl
  | .flatten t, htarget => fun members ↦ by
    obtain ⟨rest, events, haccounts⟩ := htarget t List.mem_cons_self members
    exact ⟨rest, events, haccounts.toAccounted.mono fun _ _ ↦ .flatten, haccounts.take_eq⟩
  | .oneOf groups, htarget => fun members ↦ by
    have hviews : ∀ view ∈ groups.map View.group, T.HasAccounts path (.view view) := by
      intro view hview
      obtain ⟨group, hgroup, rfl⟩ := List.mem_map.1 hview
      exact hasAccounts_groups groups htarget group hgroup
    obtain ⟨rest, events, haccounts⟩ := exists_accounts_of_views
      (T.Offers (.clause (.oneOf groups))) (fun view hview name r hoffers ↦ by
        obtain ⟨group, hgroup, rfl⟩ := List.mem_map.1 hview
        exact .oneOf hgroup hoffers) hviews members
    refine ⟨rest, events, haccounts.toAccounted, fun deeper ↦ ?_⟩
    rw [← haccounts.take_eq, takePartBy, takeClause, takeEither_eq_map, alternativesOf,
      List.map_map]
    rfl

theorem hasAccounts_group : (group : List (Clause ρ)) →
    (∀ t ∈ groupFlattenTargets group, T.HasAccounts path (.view (.ref t))) →
    T.HasAccounts path (.view (.group group))
  | [], _ => fun members ↦ ⟨members, [], .nothing, fun _ ↦ rfl⟩
  | clause :: group, htarget => fun members ↦ by
    obtain ⟨rest, events, hclause⟩ := hasAccounts_clause clause
      (fun t ht ↦ htarget t (List.mem_append_left _ ht)) members
    obtain ⟨rest', events', hgroup⟩ := hasAccounts_group group
      (fun t ht ↦ htarget t (List.mem_append_right _ ht)) rest
    refine ⟨rest', events ++ events', .andThen
      (hclause.toAccounted.mono fun _ _ ↦ .group List.mem_cons_self)
      (hgroup.toAccounted.mono fun name r hoffers ↦ ?_), fun deeper ↦ ?_⟩
    · cases hoffers with
      | group hmem hoffers => exact .group (List.mem_cons_of_mem _ hmem) hoffers
    · have hfirst := hclause.take_eq deeper
      have hsecond := hgroup.take_eq deeper
      simp only [takePartBy, takeView] at hfirst hsecond ⊢
      rw [takeGroup, hfirst, Outcome.andThen, hsecond, List.flatMap_append]

theorem hasAccounts_groups : (groups : List (List (Clause ρ))) →
    (∀ t ∈ groupsFlattenTargets groups, T.HasAccounts path (.view (.ref t))) →
    ∀ group ∈ groups, T.HasAccounts path (.view (.group group))
  | [], _ => fun _ hgroup ↦ absurd hgroup List.not_mem_nil
  | first :: groups, htarget => fun group hgroup ↦ by
    have hfirst := hasAccounts_group first fun t ht ↦ htarget t (List.mem_append_left _ ht)
    rcases List.mem_cons.1 hgroup with he | hgroup
    · exact he ▸ hfirst
    · exact hasAccounts_groups groups (fun t ht ↦ htarget t (List.mem_append_right _ ht)) group
        hgroup

end

end Steps

/-! ### A whole run -/

namespace Ranked

variable {nodes : Set ρ} {rank : ρ → Nat} (h : T.Ranked nodes rank)

include h

theorem hasAccounts_ref (path : Path) {r : ρ} (hr : r ∈ nodes) :
    T.HasAccounts path (.view (.ref r)) := by
  induction hn : rank r using Nat.strong_induction_on generalizing r with
  | h n ih =>
    subst hn
    intro members
    have htake (deeper : PartCheck ρ) : T.takeView deeper path (.ref r) members = _ :=
      h.takeView_ref_eq hr
    cases hcheck : T.check r with
    | object clauses =>
      rw [hcheck] at htake
      obtain ⟨rest, events, haccounts⟩ := hasAccounts_group clauses (fun t ht ↦ by
        obtain ⟨ht, hlt⟩ := h.target_of_object hr hcheck t ht
        exact ih (rank t) hlt ht rfl) members
      exact ⟨rest, events, haccounts.toAccounted.mono fun _ _ ↦ .object hcheck,
        fun deeper ↦ (htake deeper).trans (haccounts.take_eq deeper)⟩
    | oneOf alternatives =>
      rw [hcheck] at htake
      have hviews : ∀ view ∈ alternatives.map View.ref, T.HasAccounts path (.view view) := by
        intro view hview
        obtain ⟨a, ha, rfl⟩ := List.mem_map.1 hview
        obtain ⟨ha, hlt⟩ := h.mem_of_oneOf hr hcheck ha
        exact ih (rank a) hlt ha rfl
      obtain ⟨rest, events, haccounts⟩ := exists_accounts_of_views
        (T.Offers (.view (.ref r))) (fun view hview name s hoffers ↦ by
          obtain ⟨a, ha, rfl⟩ := List.mem_map.1 hview
          exact .alternative hcheck ha hoffers) hviews members
      refine ⟨rest, events, haccounts.toAccounted, fun deeper ↦ (htake deeper).trans ?_⟩
      rw [← haccounts.take_eq, alternativesOf, List.map_map]
      rfl
    | kind | literal | regex | arrayOf | anything =>
      rw [hcheck] at htake
      exact ⟨members, [], .nothing, htake⟩

end Ranked

/-! ### Places of failures -/

theorem literalFailure_path (path : Path) (literal value : Json) :
    (literalFailure path literal value).path = path := by
  rw [literalFailure]
  split <;> rfl

section Total

variable {rank : ρ → Nat} (h : T.Ranked Set.univ rank) {path : Path}

include h

/-- Whatever takes members has accounts for them. -/
theorem Ranked.hasAccounts (path : Path) (part : Part ρ) : T.HasAccounts path part := by
  have htarget (ts : List ρ) : ∀ t ∈ ts, T.HasAccounts path (.view (.ref t)) := fun t _ ↦
    h.hasAccounts_ref path (Set.mem_univ t)
  cases part with
  | clause clause => exact hasAccounts_clause clause (htarget _)
  | view view =>
    cases view with
    | group clauses => exact hasAccounts_group clauses (htarget _)
    | ref target => exact h.hasAccounts_ref path (Set.mem_univ target)

omit h [DecidableEq ρ] in
/-- If the failures of the values handed over lie at their members, those of the whole lie at the
path or at members that are taken away. -/
theorem Accounts.failures_located {offers : String → ρ → Prop}
    {take : PartCheck ρ → Members → Outcome} {members rest : Members} {events : List (Event ρ)}
    {deeper : PartCheck ρ} (haccounts : Accounts path offers take members rest events)
    (hdeeper : ∀ r, ∀ member ∈ members, ∀ failure ∈ deeper r (path.member member.1) member.2,
      failure.path.AtOrBelow (path.member member.1)) :
    ∀ failure ∈ (take deeper members).failures, failure.path = path ∨
      ∃ name ∈ members.names, name ∉ rest.names ∧ failure.path.AtOrBelow (path.member name) := by
  intro failure hfailure
  rw [haccounts.take_eq] at hfailure
  obtain ⟨event, hevent, hfailure⟩ := List.mem_flatMap.1 hfailure
  cases event with
  | failed other =>
    obtain rfl := List.mem_singleton.1 hfailure
    refine (haccounts.failed_at failure hevent).imp id ?_
    rintro ⟨name, hname, hrest, hpath⟩
    exact ⟨name, hname, hrest, hpath ▸ (path.member name).atOrBelow_refl⟩
  | handed r name value =>
    obtain ⟨hmember, hrest, -⟩ := haccounts.handed r name value hevent
    exact .inr ⟨name, Members.mem_names_of_mem hmember, hrest,
      hdeeper r (name, value) hmember failure hfailure⟩

/-- Where a failure of a value comes from. -/
inductive Origin (T : Table ρ) (rank : ρ → Nat) (r : ρ) (path : Path) (value : Json)
    (failure : Failure) : Prop
  /-- It is reported at the path. -/
  | here (hpath : failure.path = path)
  /-- It comes of an item of an array. -/
  | item {element : ρ} {items : List Json} {i : Nat} {item : Json} (hvalue : value = .array items)
      (hitem : item ∈ items) (h : failure ∈ T.failures element (path.item i) item)
  /-- It is reported while the members of an object are taken. -/
  | members {members rest : Members} {events : List (Event ρ)} {offers : String → ρ → Prop}
      {take : PartCheck ρ → Members → Outcome} (hvalue : value = .object members)
      (haccounts : Accounts path offers take members rest events)
      (h : failure ∈ (take T.failures members).failures)
  /-- It comes of a check of smaller rank. -/
  | branch {only : ρ} (hrank : rank only < rank r) (h : failure ∈ T.failures only path value)

theorem Ranked.origin {r : ρ} {value : Json} {failure : Failure}
    (hfailure : failure ∈ T.failures r path value) : T.Origin rank r path value failure := by
  rcases h.traces_of_check hfailure with hraises | ⟨call, hdelegates, hfailure⟩
  · have hpath : failure.path = path := by
      cases hraises with
      | literal _ _ _ => exact literalFailure_path ..
      | kind | regex | notString | notArray | notObject | noBranch | branches | leftOver |
        leftOverOfObjects => rfl
    exact .here hpath
  · cases hdelegates with
    | item hcheck hitem => exact .item rfl (List.mem_of_getElem? hitem) hfailure
    | members _ members hcheck =>
      obtain ⟨rest, events, haccounts⟩ := h.hasAccounts path (.view (.group _)) members
      exact .members rfl haccounts hfailure
    | @single _ only _ _ _ hcheck hbranches =>
      have honly : Branch.single only ∈ T.branches _ value := hbranches ▸ List.mem_cons_self
      exact .branch (h.mem_branches (Set.mem_univ r) hcheck honly List.mem_cons_self).2 hfailure
    | @objects _ _ objects members _ hcheck hbranches =>
      obtain ⟨rest, events, haccounts⟩ := exists_accounts_of_views (T := T)
        (fun _ _ ↦ True) (fun _ _ _ _ _ ↦ trivial)
        (fun view _ ↦ h.hasAccounts path (.view view)) members
      exact .members rfl haccounts hfailure

/-- A failure is reported at the path of the value or inside it. -/
theorem Ranked.failures_atOrBelow {r : ρ} {value : Json} :
    ∀ failure ∈ T.failures r path value, failure.path.AtOrBelow path := by
  -- What is handed to a check is less deep, and between disjunctions the rank decreases.
  induction hd : value.depth using Nat.strong_induction_on generalizing r path value with
  | h depth ihdepth =>
    subst hd
    induction hn : rank r using Nat.strong_induction_on generalizing r with
    | h n ihrank =>
      subst hn
      intro failure hfailure
      cases h.origin hfailure with
      | here hpath => exact hpath ▸ path.atOrBelow_refl
      | item hvalue hitem hfailure =>
        have hlt := Nat.lt_succ_of_le (Json.depth_le_itemsDepth hitem)
        exact (ihdepth _ (hvalue ▸ hlt) rfl failure hfailure).trans (path.child_atOrBelow _)
      | @members members rest events offers take hvalue haccounts hmem =>
        subst hvalue
        have hdeeper (s : ρ) : ∀ member ∈ members,
            ∀ failure ∈ T.failures s (path.member member.1) member.2,
              failure.path.AtOrBelow (path.member member.1) := fun member hmember ↦
          ihdepth _ (Nat.lt_succ_of_le (Json.depth_le_membersDepth hmember)) rfl
        rcases haccounts.failures_located hdeeper failure hmem with hpath | ⟨name, -, -, hbelow⟩
        · exact hpath ▸ path.atOrBelow_refl
        · exact hbelow.trans (path.child_atOrBelow _)
      | branch hrank hfailure => exact ihrank _ hrank rfl failure hfailure

/-! ### Verdicts on members -/

section Members

variable {offers : String → ρ → Prop} {take : PartCheck ρ → Members → Outcome}
  {members rest : Members} {events : List (Event ρ)}
  (haccounts : Accounts path offers take members rest events)

include haccounts

/-- A failure stands at the path, or at or below a member that is taken away. -/
theorem Ranked.located_of_accounts :
    ∀ failure ∈ (take T.failures members).failures, failure.path = path ∨
      ∃ name ∈ members.names, name ∉ rest.names ∧ failure.path.AtOrBelow (path.member name) :=
  haccounts.failures_located fun _ _ _ ↦ h.failures_atOrBelow

/-- A member that is taken away has a failure at or below it, or is accepted by a check that is
offered for it. -/
theorem Ranked.accepted_of_accounts (hnodup : members.names.Nodup) {name : String}
    (hname : name ∈ members.names) (hrest : name ∉ rest.names) :
    (∃ failure ∈ (take T.failures members).failures, failure.path.AtOrBelow (path.member name)) ∨
      ∃ r value, members.lookup name = some value ∧ offers name r ∧
        T.failures r (path.member name) value = [] := by
  have hmem {event : Event ρ} (hevent : event ∈ events) {failure : Failure}
      (hfailure : failure ∈ event.failures T.failures path) :
      failure ∈ (take T.failures members).failures := by
    rw [haccounts.take_eq]
    exact List.mem_flatMap.2 ⟨event, hevent, hfailure⟩
  rcases haccounts.taken name hname hrest with ⟨failure, hevent, hpath⟩ | ⟨r, value, hevent⟩
  · exact .inl ⟨failure, hmem hevent List.mem_cons_self, hpath ▸ (path.member name).atOrBelow_refl⟩
  · obtain ⟨hmember, -, hoffers⟩ := haccounts.handed r name value hevent
    by_cases hfailures : T.failures r (path.member name) value = []
    · exact .inr ⟨r, value, Members.lookup_of_mem hnodup hmember, hoffers, hfailures⟩
    · obtain ⟨failure, hfailure⟩ := List.exists_mem_of_ne_nil _ hfailures
      exact .inl ⟨failure, hmem hevent hfailure, h.failures_atOrBelow failure hfailure⟩

end Members

/-- Every member of an object without failures is accepted by a clause of the object pattern. -/
theorem Ranked.accepted_of_failures_eq_nil {r : ρ} {clauses : List (Clause ρ)}
    (hcheck : T.check r = .object clauses) {members : Members} (hnodup : members.names.Nodup)
    (hfailures : T.failures r path (.object members) = []) {name : String}
    (hname : name ∈ members.names) :
    ∃ s value, members.lookup name = some value ∧ T.Offers (.view (.group clauses)) name s ∧
      T.failures s (path.member name) value = [] := by
  obtain ⟨rest, events, haccounts⟩ := h.hasAccounts path (.view (.group clauses)) members
  rw [h.failures_eq (Set.mem_univ r), hcheck] at hfailures
  obtain ⟨hnone, hclosed⟩ := closeObject_eq_nil_iff.1 hfailures
  have hrest : name ∉ rest.names := by
    have hnil : rest = [] :=
      (congrArg Outcome.rest (haccounts.take_eq T.failures)).symm.trans hclosed
    rw [hnil]
    exact List.not_mem_nil
  refine (h.accepted_of_accounts haccounts hnodup hname hrest).resolve_left ?_
  rintro ⟨failure, hfailure, -⟩
  exact absurd (hnone ▸ hfailure) List.not_mem_nil

end Total

end Table

end JsonPattern
