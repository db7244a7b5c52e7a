import JsonPattern.Graph.Basic
import JsonPattern.Regex.Engine

/-!
# Visiting a graph

Before a validator is made, every node with a body that the root leads to is visited once, in
depth-first order with the references of each node in declared order. What a node owes is a list of
*duties*: nodes to visit, flatten targets to test, and faults to report where the node itself is
malformed. Duties are settled in order, so the first fault in that order is the one reported.
-/

namespace JsonPattern

/-- Something to be settled on a visit. -/
inductive Duty
  /-- The node is visited. -/
  | visit (id : NodeId)
  /-- The target of a flatten clause of `owner` is tested. -/
  | testFlatten (owner target : NodeId)
  /-- The fault is reported. -/
  | report (fault : Fault)

/-- Whether a clause takes all members that are left. -/
def Clause.isMany {ρ : Type} : Clause ρ → Bool
  | .many _ => true
  | _ => false

section Duties

variable (owner : NodeId)

mutual

/-- The duties of a clause of the node `owner`. -/
def Clause.duties : Clause NodeId → List Duty
  | .named _ value => [.visit value]
  | .optional group => groupDuties group
  | .many value => [.visit value]
  | .flatten target => [.testFlatten owner target, .visit target]
  | .oneOf groups => if groups.isEmpty then [.report ⟨owner, .noGroups⟩] else groupsDuties groups
termination_by structural clause => clause

/-- The duties of a list of clauses. A clause for all members that has clauses after it is a
fault. -/
def groupDuties : List (Clause NodeId) → List Duty
  | [] => []
  | clause :: group =>
    (if clause.isMany && !group.isEmpty then [.report ⟨owner, .misplacedMany⟩] else []) ++
      clause.duties ++ groupDuties group
termination_by structural group => group

/-- The duties of a list of groups. -/
def groupsDuties : List (List (Clause NodeId)) → List Duty
  | [] => []
  | group :: groups => groupDuties group ++ groupsDuties groups
termination_by structural groups => groups

end

/-- The duties of the node `owner` with a given body, if expressions are read by the engine. -/
def Shape.duties (E : Engine) : Shape NodeId → List Duty
  | .literal value =>
    if value.isScalar then [] else [.report ⟨owner, .nonScalarLiteral value⟩]
  | .type _ => []
  | .regex source =>
    match E.read source with
    | .ok _ => []
    | .error explanation => [.report ⟨owner, .invalidRegex source explanation⟩]
  | .arrayOf element => [.visit element]
  | .object clauses => groupDuties owner clauses
  | .oneOf alternatives =>
    if alternatives.isEmpty then [.report ⟨owner, .noAlternatives⟩]
    else alternatives.map .visit
  | .anything => []

end Duties

namespace Graph

variable (g : Graph)

section FlattenTargets

variable (owner : NodeId)

/-- Tests pending targets in turn, the targets `seen` being known to be good. A disjunction is
handed to `openNext` with its alternatives in front of what is pending, the last one first. -/
def testPending (openNext : List NodeId → List NodeId → Except Fault Unit) :
    List NodeId → List NodeId → Except Fault Unit
  | [], _ => .ok ()
  | id :: pending, seen =>
    match g.resolve id with
    | .error fault => .error fault
    | .ok (id, shape) =>
      if id ∈ seen then testPending openNext pending seen
      else
        match shape with
        | .object _ => testPending openNext pending (id :: seen)
        | .oneOf alternatives => openNext (alternatives.reverse ++ pending) (id :: seen)
        | _ => .error ⟨owner, .invalidFlatten id⟩

/-- Tests pending targets, opening at most `budget` disjunctions. -/
def testTargets : Nat → List NodeId → List NodeId → Except Fault Unit
  | 0 => fun _ _ ↦ .ok ()
  | budget + 1 => g.testPending owner (testTargets budget)

/-- Tests that a flatten target of `owner` is an object, or a disjunction all of whose alternatives
pass the same test. No disjunction is opened twice. -/
def testFlatten (target : NodeId) : Except Fault Unit :=
  g.testTargets owner (g.size + 1) [target] []

end FlattenTargets

section Visit

variable (E : Engine)

/-- Settles duties in turn, the nodes `seen` being visited already. A node that is not is handed to
`openNext` with its duties in front of what is pending. -/
def settlePending (openNext : List Duty → List NodeId → Except Fault (List NodeId)) :
    List Duty → List NodeId → Except Fault (List NodeId)
  | [], seen => .ok seen
  | .report fault :: _, _ => .error fault
  | .testFlatten owner target :: pending, seen =>
    match g.testFlatten owner target with
    | .error fault => .error fault
    | .ok () => settlePending openNext pending seen
  | .visit id :: pending, seen =>
    match g.resolve id with
    | .error fault => .error fault
    | .ok (id, shape) =>
      if id ∈ seen then settlePending openNext pending seen
      else openNext (shape.duties id E ++ pending) (seen ++ [id])

/-- Settles duties, visiting at most `budget` nodes. -/
def settle : Nat → List Duty → List NodeId → Except Fault (List NodeId)
  | 0 => fun _ seen ↦ .ok seen
  | budget + 1 => g.settlePending E (settle budget)

/-- The nodes with a body that `root` leads to, in depth-first order. No node is visited twice. -/
def visit (root : NodeId) : Except Fault (List NodeId) :=
  g.settle E (g.size + 1) [.visit root] []

end Visit

end Graph

end JsonPattern
