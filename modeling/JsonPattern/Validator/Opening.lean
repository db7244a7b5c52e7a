import JsonPattern.Validator.Shallow

/-!
# Openings

Alternatives between clauses are told apart by the member that opens them. A list of clauses is
opened by one of its *leading* clauses: the optional groups at its start and the first clause that
is not optional. Three views of what may open a clause are given: the names
(`Table.firstNames`), the checks of the values under a name (`Table.firstChecks`), and whether a
value under a name fits (`Table.opens`). For alternatives the last one asks that exactly one of them
is opened, as a disjunction does.
-/

namespace JsonPattern

/-- A list of clauses, or the members of another check, seen as something that takes members. -/
inductive View (ρ : Type)
  /-- The clauses of a list. -/
  | group (clauses : List (Clause ρ))
  /-- The clauses of a check of objects, or of one of several. -/
  | ref (target : ρ)

variable {ρ : Type}

/-! ### Names -/

section FirstNames

variable (ofTarget : ρ → LabelSet)

mutual

/-- The names that may open a clause. -/
def Clause.firstNames : Clause ρ → LabelSet
  | .named name _ => .singleton name
  | .optional group => groupFirstNames group
  | .many _ => ∅
  | .flatten target => ofTarget target
  | .oneOf groups => groupsFirstNames groups
termination_by structural clause => clause

/-- The names that may open a list of clauses. -/
def groupFirstNames : List (Clause ρ) → LabelSet
  | [] => ∅
  | clause :: group =>
    if clause.isOptional then clause.firstNames ∪ groupFirstNames group else clause.firstNames
termination_by structural group => group

/-- The names that may open one of several groups. -/
def groupsFirstNames : List (List (Clause ρ)) → LabelSet
  | [] => ∅
  | group :: groups => groupFirstNames group ∪ groupsFirstNames groups
termination_by structural groups => groups

end

end FirstNames

/-! ### Checks of values -/

section FirstChecks

variable (ofTarget : ρ → List ρ) (name : String)

mutual

/-- The checks that may apply to the value of the member `name`, if it opens the clause. -/
def Clause.firstChecks : Clause ρ → List ρ
  | .named own value => if own == name then [value] else []
  | .optional group => groupFirstChecks group
  | .many _ => []
  | .flatten target => ofTarget target
  | .oneOf groups => groupsFirstChecks groups
termination_by structural clause => clause

/-- The checks that may apply to the member that opens a list of clauses. -/
def groupFirstChecks : List (Clause ρ) → List ρ
  | [] => []
  | clause :: group =>
    if clause.isOptional then clause.firstChecks ++ groupFirstChecks group else clause.firstChecks
termination_by structural group => group

/-- The checks that may apply to the member that opens one of several groups. -/
def groupsFirstChecks : List (List (Clause ρ)) → List ρ
  | [] => []
  | group :: groups => groupFirstChecks group ++ groupsFirstChecks groups
termination_by structural groups => groups

end

end FirstChecks

/-! ### Fitting values -/

section Opens

variable (fits : ρ → Bool) (ofTarget : ρ → Bool) (name : String)

mutual

/-- Whether the member `name` opens the clause with a value that fits. -/
def Clause.opens : Clause ρ → Bool
  | .named own value => own == name && fits value
  | .optional group => groupOpens group
  | .many _ => false
  | .flatten target => ofTarget target
  | .oneOf groups => groupsOpened groups == 1
termination_by structural clause => clause

/-- Whether the member opens a list of clauses. -/
def groupOpens : List (Clause ρ) → Bool
  | [] => false
  | clause :: group => clause.opens || (clause.isOptional && groupOpens group)
termination_by structural group => group

/-- How many of several groups the member opens. -/
def groupsOpened : List (List (Clause ρ)) → Nat
  | [] => 0
  | group :: groups => (if groupOpens group then 1 else 0) + groupsOpened groups
termination_by structural groups => groups

end

end Opens

namespace Table

variable (T : Table ρ)

/-- The names that may open the members of a check, over at most `hops` references. -/
def firstNamesWithin : Nat → ρ → LabelSet
  | 0, _ => ∅
  | hops + 1, r =>
    match T.check r with
    | .object clauses => groupFirstNames (firstNamesWithin hops) clauses
    | .oneOf alternatives => .unions (alternatives.map (firstNamesWithin hops))
    | _ => ∅

/-- The names that may open a view. -/
def firstNames : View ρ → LabelSet
  | .group clauses => groupFirstNames (T.firstNamesWithin T.hops) clauses
  | .ref target => T.firstNamesWithin T.hops target

/-- The names that may open a view and are present among the members. -/
def present (view : View ρ) (members : Members) : LabelSet :=
  (T.firstNames view).filter fun name ↦ (members.lookup name).isSome

/-- The checks that may apply to the member that opens a check, over at most `hops` references. -/
def firstChecksWithin (name : String) : Nat → ρ → List ρ
  | 0, _ => []
  | hops + 1, r =>
    match T.check r with
    | .object clauses => groupFirstChecks (firstChecksWithin name hops) name clauses
    | .oneOf alternatives => alternatives.flatMap (firstChecksWithin name hops)
    | _ => []

/-- The checks that may apply to the value of the member `name`, if it opens the view. -/
def firstChecks (name : String) : View ρ → List ρ
  | .group clauses => groupFirstChecks (T.firstChecksWithin name T.hops) name clauses
  | .ref target => T.firstChecksWithin name T.hops target

variable [DecidableEq ρ]

/-- Whether a member opens a check, over at most `hops` references. -/
def opensWithin (name : String) (value : Json) : Nat → ρ → Bool
  | 0, _ => false
  | hops + 1, r =>
    match T.check r with
    | .object clauses =>
      groupOpens (T.fits · value) (opensWithin name value hops) name clauses
    | .oneOf alternatives => alternatives.countP (opensWithin name value hops) == 1
    | _ => false

/-- Whether the member `name` opens the view with a value that fits. -/
def opens (name : String) (value : Json) : View ρ → Bool
  | .group clauses =>
    groupOpens (T.fits · value) (T.opensWithin name value T.hops) name clauses
  | .ref target => T.opensWithin name value T.hops target

end Table

end JsonPattern
