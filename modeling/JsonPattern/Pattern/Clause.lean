import JsonPattern.Json.Text

/-!
# Member clauses

The body of an object pattern is a list of clauses, each of which takes members of the object. A
clause refers to other patterns by references of some type `ρ`; in a graph these are the ids of
its nodes, in a validator the numbers of its checks. The operations below treat all references of
a clause alike, in the order in which they are declared.
-/

namespace JsonPattern

/-- One unit of the member list of an object pattern. -/
inductive Clause (ρ : Type)
  /-- The member of that name, whose value matches the pattern referred to. -/
  | named (name : String) (value : ρ)
  /-- A group of clauses that applies only if one of the names that may open it is present. -/
  | optional (group : List (Clause ρ))
  /-- All members that are left. It is the last clause of its list. -/
  | many (value : ρ)
  /-- The clauses of another object pattern, or of one of several. -/
  | flatten (target : ρ)
  /-- One of several groups of clauses. -/
  | oneOf (groups : List (List (Clause ρ)))

variable {ρ σ : Type}

/-- Whether a clause is an optional group. -/
def Clause.isOptional : Clause ρ → Bool
  | .optional _ => true
  | _ => false

/-! ### References -/

mutual

/-- Replaces every reference of a clause. -/
def Clause.map (f : ρ → σ) : Clause ρ → Clause σ
  | .named name value => .named name (f value)
  | .optional group => .optional (groupMap f group)
  | .many value => .many (f value)
  | .flatten target => .flatten (f target)
  | .oneOf groups => .oneOf (groupsMap f groups)
termination_by structural clause => clause

/-- Replaces every reference of a list of clauses. -/
def groupMap (f : ρ → σ) : List (Clause ρ) → List (Clause σ)
  | [] => []
  | clause :: group => clause.map f :: groupMap f group
termination_by structural group => group

/-- Replaces every reference of a list of groups. -/
def groupsMap (f : ρ → σ) : List (List (Clause ρ)) → List (List (Clause σ))
  | [] => []
  | group :: groups => groupMap f group :: groupsMap f groups
termination_by structural groups => groups

end

section Effects

variable {m : Type → Type} [Monad m]

mutual

/-- Replaces every reference of a clause by the result of an action, in declared order. -/
def Clause.mapM (f : ρ → m σ) : Clause ρ → m (Clause σ)
  | .named name value => return .named name (← f value)
  | .optional group => return .optional (← groupMapM f group)
  | .many value => return .many (← f value)
  | .flatten target => return .flatten (← f target)
  | .oneOf groups => return .oneOf (← groupsMapM f groups)
termination_by structural clause => clause

/-- Replaces every reference of a list of clauses by the result of an action. -/
def groupMapM (f : ρ → m σ) : List (Clause ρ) → m (List (Clause σ))
  | [] => return []
  | clause :: group => do
    let clause ← clause.mapM f
    return clause :: (← groupMapM f group)
termination_by structural group => group

/-- Replaces every reference of a list of groups by the result of an action. -/
def groupsMapM (f : ρ → m σ) : List (List (Clause ρ)) → m (List (List (Clause σ)))
  | [] => return []
  | group :: groups => do
    let group ← groupMapM f group
    return group :: (← groupsMapM f groups)
termination_by structural groups => groups

end

end Effects

mutual

/-- The references of a clause, in declared order. -/
def Clause.refs : Clause ρ → List ρ
  | .named _ value => [value]
  | .optional group => groupRefs group
  | .many value => [value]
  | .flatten target => [target]
  | .oneOf groups => groupsRefs groups
termination_by structural clause => clause

/-- The references of a list of clauses. -/
def groupRefs : List (Clause ρ) → List ρ
  | [] => []
  | clause :: group => clause.refs ++ groupRefs group
termination_by structural group => group

/-- The references of a list of groups. -/
def groupsRefs : List (List (Clause ρ)) → List ρ
  | [] => []
  | group :: groups => groupRefs group ++ groupsRefs groups
termination_by structural groups => groups

end

mutual

/-- The flatten targets of a clause, those inside its groups included. -/
def Clause.flattenTargets : Clause ρ → List ρ
  | .named _ _ => []
  | .optional group => groupFlattenTargets group
  | .many _ => []
  | .flatten target => [target]
  | .oneOf groups => groupsFlattenTargets groups
termination_by structural clause => clause

/-- The flatten targets of a list of clauses. -/
def groupFlattenTargets : List (Clause ρ) → List ρ
  | [] => []
  | clause :: group => clause.flattenTargets ++ groupFlattenTargets group
termination_by structural group => group

/-- The flatten targets of a list of groups. -/
def groupsFlattenTargets : List (List (Clause ρ)) → List ρ
  | [] => []
  | group :: groups => groupFlattenTargets group ++ groupsFlattenTargets groups
termination_by structural groups => groups

end

/-! ### Equality -/

section Equality

variable [BEq ρ]

mutual

/-- Equality of clauses: the same form with the same names and references in the same order. -/
def Clause.equal : Clause ρ → Clause ρ → Bool
  | .named m v, .named n w => m == n && v == w
  | .optional g, .optional h => groupEqual g h
  | .many v, .many w => v == w
  | .flatten v, .flatten w => v == w
  | .oneOf gs, .oneOf hs => groupsEqual gs hs
  | _, _ => false
termination_by structural clause => clause

/-- Equality of lists of clauses. -/
def groupEqual : List (Clause ρ) → List (Clause ρ) → Bool
  | [], [] => true
  | c :: g, d :: h => c.equal d && groupEqual g h
  | _, _ => false
termination_by structural group => group

/-- Equality of lists of groups. -/
def groupsEqual : List (List (Clause ρ)) → List (List (Clause ρ)) → Bool
  | [], [] => true
  | g :: gs, h :: hs => groupEqual g h && groupsEqual gs hs
  | _, _ => false
termination_by structural groups => groups

end

instance : BEq (Clause ρ) := ⟨Clause.equal⟩

end Equality

/-! ### Text -/

mutual

/-- The text of a clause whose references are already written. -/
def Clause.text : Clause String → String
  | .named name value => Json.quoted name ++ ": " ++ value
  | .optional group => "optional \x7b" ++ ", ".intercalate (groupTexts group) ++ "\x7d"
  | .many value => "*: " ++ value
  | .flatten target => "..." ++ target
  | .oneOf groups => "one_of(" ++ " | ".intercalate (groupsTexts groups) ++ ")"
termination_by structural clause => clause

/-- The texts of the clauses of a group. -/
def groupTexts : List (Clause String) → List String
  | [] => []
  | clause :: group => clause.text :: groupTexts group
termination_by structural group => group

/-- The texts of groups, each in braces. -/
def groupsTexts : List (List (Clause String)) → List String
  | [] => []
  | group :: groups =>
    ("\x7b" ++ ", ".intercalate (groupTexts group) ++ "\x7d") :: groupsTexts groups
termination_by structural groups => groups

end

/-- The text of a list of clauses: its clauses in braces. -/
def groupText (group : List (Clause String)) : String :=
  "\x7b" ++ ", ".intercalate (groupTexts group) ++ "\x7d"

end JsonPattern
