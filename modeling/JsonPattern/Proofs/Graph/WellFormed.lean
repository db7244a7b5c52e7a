import JsonPattern.Proofs.Graph.Resolve
import JsonPattern.Proofs.Pattern.References
import JsonPattern.Regex.Engine
import Mathlib.Data.Set.Defs

/-!
# Well-formed graphs

What must hold of the nodes that a root leads to, stated on the graph alone, without a walk through
it. A root leads to a node through references of any kind, cyclic references included. The clauses
of an object are nested in each other by optional groups and alternations, and what is asked of a
list of clauses is asked of every list nested in it.

`Graph.Unguarded` relates a node to the nodes that are reached from it without descending into the
value: a disjunction to its alternatives, an object to its flatten targets.
-/

namespace JsonPattern

/-! ### Nested lists of clauses -/

/-- A list of clauses is another one, or a group in one of its clauses, however deep. -/
inductive Nested {ρ : Type} : List (Clause ρ) → List (Clause ρ) → Prop
  | self (clauses : List (Clause ρ)) : Nested clauses clauses
  | optional {inner outer group : List (Clause ρ)} (hmem : .optional group ∈ outer)
      (h : Nested inner group) : Nested inner outer
  | oneOf {inner outer group : List (Clause ρ)} {groups : List (List (Clause ρ))}
      (hmem : .oneOf groups ∈ outer) (hgroup : group ∈ groups) (h : Nested inner group) :
      Nested inner outer

/-- In every nested list, only the last clause takes all members that are left, and every
alternation has a group. -/
structure ProperClauses {ρ : Type} (clauses : List (Clause ρ)) : Prop where
  /-- Nothing stands behind a clause for all members. -/
  many_last : ∀ list, Nested list clauses → ∀ before value after,
    list = before ++ .many value :: after → after = []
  /-- An alternation has a group. -/
  groups_ne_nil : ∀ list, Nested list clauses → ∀ groups, .oneOf groups ∈ list → groups ≠ []

/-- What is asked of the body of a node by itself. -/
def Shape.Proper (E : Engine) {ρ : Type} : Shape ρ → Prop
  | .literal value => value.isScalar
  | .regex source => ∃ matcher, E.read source = .ok matcher
  | .object clauses => ProperClauses clauses
  | .oneOf alternatives => alternatives ≠ []
  | _ => True

/-- The references of a pattern: those of its body, or the node that it stands for. -/
def Pattern.refs : Pattern → List NodeId
  | .body shape => shape.refs
  | .cyclic target => [target]

namespace Graph

variable (g : Graph) (E : Engine)

/-! ### Reachability -/

/-- A node of the graph refers to another id. -/
def Mentions (id next : NodeId) : Prop := ∃ pattern, g.get id = .ok pattern ∧ next ∈ pattern.refs

/-- A node leads to an id, in any number of steps. -/
def Reaches : NodeId → NodeId → Prop := Relation.ReflTransGen g.Mentions

/-- The nodes with bodies that a root leads to. -/
def bodies (root : NodeId) : Set NodeId :=
  {id | g.Reaches root id ∧ ∃ shape, g.get id = .ok (.body shape)}

/-- A node with a body leads to another one without descending into the value. -/
def Unguarded (id next : NodeId) : Prop :=
  ∃ shape, g.get id = .ok (.body shape) ∧
    ∃ ref ∈ shape.unguardedRefs, ∃ shape', g.StandsFor ref next shape'

/-- An id stands for an object, or for a disjunction all of whose alternatives stand for such. -/
inductive Flattenable : NodeId → Prop
  | object {id target : NodeId} {clauses : List (Clause NodeId)}
      (h : g.StandsFor id target (.object clauses)) : Flattenable id
  | oneOf {id target : NodeId} {alternatives : List NodeId}
      (h : g.StandsFor id target (.oneOf alternatives))
      (halternatives : ∀ alternative ∈ alternatives, Flattenable alternative) : Flattenable id

/-- Everything that the root leads to is as it must be. -/
structure WellFormed (root : NodeId) : Prop where
  /-- Every id is one of the graph, and its slot is filled. -/
  filled : ∀ id, g.Reaches root id → ∃ pattern, g.get id = .ok pattern
  /-- Every chain of cyclic references ends at a body. -/
  chains_end : ∀ id, g.Reaches root id → ∃ target shape, g.StandsFor id target shape
  /-- Literals are scalars, the engine reads every regular expression, clauses for all members come
  last, and nothing is chosen among no alternatives. -/
  proper : ∀ id, g.Reaches root id → ∀ shape, g.get id = .ok (.body shape) → shape.Proper E
  /-- Every flatten target is an object or a disjunction of objects. -/
  flattenable : ∀ id, g.Reaches root id → ∀ clauses, g.get id = .ok (.body (.object clauses)) →
    ∀ target ∈ groupFlattenTargets clauses, g.Flattenable target
  /-- No cycle runs through alternatives and flatten targets alone. -/
  acyclic : ∀ id, g.Reaches root id → ¬ Relation.TransGen g.Unguarded id id

variable {g E}

/-- What holds of a node and of all that its nodes mention holds of all that it leads to. -/
theorem Reaches.mem_of_closed {P : NodeId → Prop} (hP : ∀ id next, P id → g.Mentions id next →
    P next) {id target : NodeId} (h : g.Reaches id target) (hid : P id) : P target := by
  induction h with
  | refl => exact hid
  | tail _ hstep ih => exact hP _ _ ih hstep

theorem ChainEnds.reaches {id target : NodeId} {shape : Shape NodeId}
    (h : g.ChainEnds id (.ok (target, shape))) : g.Reaches id target := by
  generalize he : (Except.ok (target, shape) : Except Fault (NodeId × Shape NodeId)) = outcome at h
  induction h with
  | body h => cases he; exact .refl
  | fault h => cases he
  | cyclic h rest ih => exact .head ⟨_, h, by simp [Pattern.refs]⟩ (ih he)

theorem StandsFor.reaches {id target : NodeId} {shape : Shape NodeId}
    (h : g.StandsFor id target shape) : g.Reaches id target :=
  ChainEnds.reaches h

end Graph

end JsonPattern
