import JsonPattern.Validator.Verdict

/-!
# Calls

The functions of a validator call each other. `Table.perform` gives what each of them does with the
answers to the calls that it makes, and `Table.run` answers calls by performing them over at most so
many levels of calls within calls; it yields nothing if the levels are not enough. Neither follows
references by hops or descends by levels of the value.

Flattened checks are unfolded where members are taken, by `Table.expand`. The leaves below a
disjunction are found by a loop over a stack of pending checks.

## Main definitions

* `Part`, `Call` : what takes members, and what is asked of a validator.
* `Table.expand` : the unfolding of flattened checks.
* `Table.perform` : what a function does with the answers to its calls.
* `Table.run` : the answer to a call over so many levels of calls.
* `Validator.unstack` : the loop over a stack of pending checks.
-/

namespace JsonPattern

/-- Something that takes members: a single clause, or a view. -/
inductive Part (ρ : Type)
  | clause (clause : Clause ρ)
  | view (view : View ρ)

/-- What a part comes to when flattened checks are unfolded. -/
inductive Expanded (ρ : Type)
  /-- A named clause, an optional group or a clause for all members. -/
  | leaf (clause : Clause ρ)
  /-- Clauses that apply in order. -/
  | sequence (clauses : List (Clause ρ))
  /-- Alternatives between which the members decide. -/
  | alternatives (views : List (View ρ))
  /-- Nothing that takes members. -/
  | nothing

/-- A call of one of the functions of a validator. -/
inductive Call (ρ : Type)
  /-- The failures of a value against a check. -/
  | check (r : ρ) (path : Path) (value : Json)
  /-- Whether a value fits a check. -/
  | fits (r : ρ) (value : Json)
  /-- The branches of a disjunction that a value fits. -/
  | branches (r : ρ) (value : Json)
  /-- The labels of a check. -/
  | describe (r : ρ)
  /-- The labels of several checks. -/
  | describeAll (rs : List ρ)
  /-- The names that may open a part. -/
  | firstNames (part : Part ρ)
  /-- The checks that may apply to the value of a member, if it opens a part. -/
  | firstChecks (part : Part ρ) (name : String)
  /-- Whether a member opens a part with a value that fits. -/
  | opens (part : Part ρ) (name : String) (value : Json)
  /-- What is left when a part takes members. -/
  | take (part : Part ρ) (path : Path) (members : Members)
  /-- What is left when one of several views takes members. -/
  | dispatch (views : List (View ρ)) (path : Path) (members : Members)

/-- What is asked by a call. -/
abbrev Call.Answer {ρ : Type} : Call ρ → Type
  | .check _ _ _ => List Failure
  | .fits _ _ => Bool
  | .branches _ _ => List (Branch ρ)
  | .describe _ => LabelSet
  | .describeAll _ => LabelSet
  | .firstNames _ => LabelSet
  | .firstChecks _ _ => List ρ
  | .opens _ _ _ => Bool
  | .take _ _ _ => Outcome
  | .dispatch _ _ _ => Outcome

/-- The clauses that may be opened first: the optional groups at the start of a list and the first
clause that is not optional. -/
def leading {ρ : Type} : List (Clause ρ) → List (Clause ρ)
  | [] => []
  | clause :: group => if clause.isOptional then clause :: leading group else [clause]

/-- The elements of a list for which a test holds, if the test yields something for all. -/
def select {α : Type} (test : α → Option Bool) : List α → Option (List α)
  | [] => some []
  | a :: as => do
    let holds ← test a
    let rest ← select test as
    return if holds then a :: rest else rest

namespace Table

variable {ρ : Type} [DecidableEq ρ] (T : Table ρ)

/-- Collects the leaves below pending checks, each unless it is there already, over at most so many
rounds. -/
def unravel : Nat → List ρ → List ρ → Option (List ρ)
  | _, [], done => some done
  | 0, _ :: _, _ => none
  | rounds + 1, r :: pending, done =>
    match T.check r with
    | .oneOf alternatives => unravel rounds (alternatives ++ pending) done
    | _ => unravel rounds pending (if r ∈ done then done else done ++ [r])

omit [DecidableEq ρ] in
/-- Unfolds a check that is seen as taking members. -/
def expandRef (r : ρ) : Expanded ρ :=
  match T.check r with
  | .object clauses => .sequence clauses
  | .oneOf alternatives => .alternatives (alternatives.map .ref)
  | _ => .nothing

omit [DecidableEq ρ] in
/-- Unfolds flattened checks, so that only concrete clauses are seen. -/
def expand : Part ρ → Expanded ρ
  | .view (.group clauses) => .sequence clauses
  | .view (.ref target) => T.expandRef target
  | .clause (.flatten target) => T.expandRef target
  | .clause (.oneOf groups) => .alternatives (groups.map .group)
  | .clause clause => .leaf clause

section Perform

variable (rounds : Nat) (ask : (call : Call ρ) → Option call.Answer)

omit [DecidableEq ρ] in
/-- The labels of a branch. -/
def performBranchLabels : Branch ρ → Option LabelSet
  | .single r => ask (.describe r)
  | .objects rs => ask (.describeAll rs)

/-- The failures of a value against alternatives of which it fits some branches. -/
def performChoice (alternatives : List ρ) (branches : List (Branch ρ)) (path : Path)
    (value : Json) : Option (List Failure) :=
  match branches, value with
  | [], _ => do
    let labels ← ask (.describeAll alternatives)
    return [.unexpectedOf path value.shallowText labels]
  | [.single only], _ => ask (.check only path value)
  | [.objects objects], .object members => do
    let outcome ← ask (.dispatch (objects.map .ref) path members)
    return closeObject path outcome
  | [.objects _], _ => some []
  | branches, _ => do
    let labels ← branches.mapM (performBranchLabels ask)
    return [.ambiguous path value.shallowText (.unions labels)]

/-- The failures of a value against a check. -/
def performCheck (r : ρ) (path : Path) (value : Json) : Option (List Failure) :=
  match T.check r with
  | .kind type =>
    some (if type.accepts value.kind then [] else [.unexpected path value.kind.label type.label])
  | .literal literal =>
    some (if literal.equal value then [] else [literalFailure path literal value])
  | .regex r label =>
    match value with
    | .string s => some (if r.isMatch s then [] else [.unexpected path value.text label])
    | _ => some [.unexpected path value.kind.label "string"]
  | .arrayOf element =>
    match value with
    | .array items => do
      let failures ← items.zipIdx.mapM fun entry ↦
        ask (.check element (path.item entry.2) entry.1)
      return failures.flatten
    | _ => some [.unexpected path value.kind.label "array"]
  | .object clauses =>
    match value with
    | .object members => do
      let outcome ← ask (.take (.view (.group clauses)) path members)
      return closeObject path outcome
    | _ => some [.unexpected path value.kind.label "object"]
  | .oneOf alternatives => do
    let branches ← ask (.branches r value)
    performChoice ask alternatives branches path value
  | .anything => some []

/-- Whether a value fits a check. -/
def performFits (r : ρ) (value : Json) : Option Bool :=
  match T.check r with
  | .kind type => some (type.accepts value.kind)
  | .literal literal => some (literal.equal value)
  | .regex r _ =>
    match value with
    | .string s => some (r.isMatch s)
    | _ => some false
  | .arrayOf _ => some value.isArray
  | .object _ => some value.isObject
  | .oneOf _ => do
    let branches ← ask (.branches r value)
    return branches.length == 1
  | .anything => some true

/-- The branches of a disjunction that a value fits. -/
def performBranches (r : ρ) (value : Json) : Option (List (Branch ρ)) :=
  match T.check r with
  | .oneOf alternatives =>
    if value.isObject then do
      let leaves ← T.unravel rounds alternatives []
      let fitting ← select (fun leaf ↦
        if T.isObject leaf then some true else ask (.fits leaf value)) leaves
      return T.groupBranches (fun leaf ↦ leaf ∈ fitting) leaves
    else do
      let fitting ← select (fun a ↦ ask (.fits a value)) alternatives
      return fitting.map .single
  | _ => some []

/-- The labels of a check. -/
def performDescribe (r : ρ) : Option LabelSet :=
  match T.check r with
  | .kind type => some (.singleton type.label)
  | .literal value => some (.singleton value.text)
  | .regex _ label => some (.singleton label)
  | .arrayOf _ => some (.singleton "array")
  | .object _ => some (.singleton "object")
  | .oneOf alternatives => ask (.describeAll alternatives)
  | .anything => some (.singleton "anything")

/-- The names that may open a part. -/
def performFirstNames (part : Part ρ) : Option LabelSet :=
  match T.expand part with
  | .leaf (.named name _) => some (.singleton name)
  | .leaf (.optional group) => ask (.firstNames (.view (.group group)))
  | .leaf _ => some ∅
  | .sequence clauses => do
    let names ← (leading clauses).mapM fun clause ↦ ask (.firstNames (.clause clause))
    return .unions names
  | .alternatives views => do
    let names ← views.mapM fun view ↦ ask (.firstNames (.view view))
    return .unions names
  | .nothing => some ∅

/-- The checks that may apply to the value of a member, if it opens a part. -/
def performFirstChecks (part : Part ρ) (name : String) : Option (List ρ) :=
  match T.expand part with
  | .leaf (.named own value) => some (if own == name then [value] else [])
  | .leaf (.optional group) => ask (.firstChecks (.view (.group group)) name)
  | .leaf _ => some []
  | .sequence clauses => do
    let checks ← (leading clauses).mapM fun clause ↦ ask (.firstChecks (.clause clause) name)
    return checks.flatten
  | .alternatives views => do
    let checks ← views.mapM fun view ↦ ask (.firstChecks (.view view) name)
    return checks.flatten
  | .nothing => some []

/-- Whether a member opens a part with a value that fits. -/
def performOpens (part : Part ρ) (name : String) (value : Json) : Option Bool :=
  match T.expand part with
  | .leaf (.named own target) => if own == name then ask (.fits target value) else some false
  | .leaf (.optional group) => ask (.opens (.view (.group group)) name value)
  | .leaf _ => some false
  | .sequence clauses =>
    (leading clauses).anyM fun clause ↦ do
      let names ← ask (.firstNames (.clause clause))
      if name ∈ names then ask (.opens (.clause clause) name value) else return false
  | .alternatives views => do
    let opened ← select (fun view ↦ ask (.opens (.view view) name value)) views
    return opened.length == 1
  | .nothing => some false

/-- What is left when a part takes members. -/
def performTake (part : Part ρ) (path : Path) (members : Members) : Option Outcome :=
  match T.expand part with
  | .leaf (.named name target) =>
    match members.lookup name with
    | some value => do
      let failures ← ask (.check target (path.member name) value)
      return ⟨members.without name, failures⟩
    | none => some ⟨members, [.unexpected path (namesText members.names) (nameLabel name)]⟩
  | .leaf (.optional group) => do
    let names ← ask (.firstNames (.view (.group group)))
    if (names.filter fun name ↦ (members.lookup name).isSome).isEmpty then return .keep members
    ask (.take (.view (.group group)) path members)
  | .leaf (.many target) => do
    let failures ← members.mapM fun member ↦
      ask (.check target (path.member member.1) member.2)
    return ⟨[], failures.flatten⟩
  | .leaf _ => some (.keep members)
  | .sequence clauses =>
    clauses.foldlM (fun outcome clause ↦ do
      let next ← ask (.take (.clause clause) path outcome.rest)
      return ⟨next.rest, outcome.failures ++ next.failures⟩) (.keep members)
  | .alternatives views => ask (.dispatch views path members)
  | .nothing => some (.keep members)

/-- The labels of the checks that may apply to the member that opens one of several views. -/
def performValueLabels (views : List (View ρ)) (name : String) : Option LabelSet := do
  let labels ← views.mapM fun view ↦ do
    let checks ← ask (.firstChecks (.view view) name)
    ask (.describeAll checks)
  return .unions labels

/-- The labels of the names that may open one of several views. -/
def performOpeningLabels (views : List (View ρ)) : Option LabelSet := do
  let labels ← views.mapM fun view ↦ do
    let names ← ask (.firstNames (.view view))
    return .ofList (names.toList.map nameLabel)
  return .unions labels

/-- What is left when one of several views takes members. -/
def performDispatch (views : List (View ρ)) (path : Path) (members : Members) :
    Option Outcome := do
  let present ← views.mapM fun view ↦ do
    let names ← ask (.firstNames (.view view))
    return (view, names.filter fun name ↦ (members.lookup name).isSome)
  let candidates := (present.filter fun entry ↦ !entry.2.isEmpty).map Prod.fst
  match (LabelSet.unions (present.map Prod.snd)).toList with
  | [] =>
    let labels ← performOpeningLabels ask views
    let expected := if labels.isEmpty then .singleton endOfMembers else labels
    return ⟨members, [.unexpectedOf path (namesText members.names) expected]⟩
  | [name] =>
    match members.lookup name with
    | none => return .keep members
    | some value =>
      let matching ← select (fun view ↦ ask (.opens (.view view) name value)) candidates
      match matching with
      | [] =>
        let labels ← performValueLabels ask candidates name
        return ⟨members.without name,
          [.unexpectedOf (path.member name) value.shallowText labels]⟩
      | [winner] => ask (.take (.view winner) path members)
      | matching =>
        let labels ← performValueLabels ask matching name
        return ⟨members.without name, [.ambiguous (path.member name) value.shallowText labels]⟩
  | names =>
    let labels ← performOpeningLabels ask candidates
    return ⟨members, [.ambiguous path (namesText names) labels]⟩

/-- What the function called does, given the answers to the calls that it makes in turn. The loop
that finds leaves makes at most so many rounds. -/
def perform : (call : Call ρ) → Option call.Answer
  | .check r path value => T.performCheck ask r path value
  | .fits r value => T.performFits ask r value
  | .branches r value => T.performBranches rounds ask r value
  | .describe r => T.performDescribe ask r
  | .describeAll rs => do
    let labels ← rs.mapM fun r ↦ ask (.describe r)
    return .unions labels
  | .firstNames part => T.performFirstNames ask part
  | .firstChecks part name => T.performFirstChecks ask part name
  | .opens part name value => T.performOpens ask part name value
  | .take part path members => T.performTake ask part path members
  | .dispatch views path members => performDispatch ask views path members

end Perform

/-- Answers a call over at most so many levels of calls within calls. -/
def run (rounds : Nat) : Nat → (call : Call ρ) → Option call.Answer
  | 0, _ => none
  | levels + 1, call => T.perform rounds (run rounds levels) call

end Table

/-- Collects the leaves below the checks on a stack, over at most so many rounds. The last check is
taken off; in place of a disjunction its alternatives are put on the stack, the last one first.
There is no result if a check is looked up beyond the end. -/
def Validator.unstack (V : Validator) : Nat → Array Nat → Array Nat → Option (Array Nat)
  | 0, stack, done => if stack.isEmpty then some done else none
  | rounds + 1, stack, done =>
    match stack.back? with
    | none => some done
    | some slot =>
      match V.checks[slot]? with
      | none => none
      | some (.oneOf alternatives) =>
        unstack V rounds (stack.pop ++ alternatives.reverse) done
      | some _ => unstack V rounds stack.pop (if slot ∈ done then done else done.push slot)

end JsonPattern
