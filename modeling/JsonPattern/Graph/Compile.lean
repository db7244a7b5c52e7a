import JsonPattern.Graph.CycleSearch
import JsonPattern.Graph.Visit
import JsonPattern.Validator.Verdict

/-!
# From graphs to validators

A graph is itself a table of checks: behind an id stands the check of the body that the id stands
for, with references to nodes with bodies. A validator is the same table for the nodes that the root
leads to, numbered in the order in which they are visited, so every node with a body has one check
however often it is shared.

A validator is only made if nothing is wrong with the nodes visited and no cycle runs through
alternatives and flatten targets alone, since such a cycle never descends into the value.
-/

namespace JsonPattern

namespace Graph

variable (g : Graph) (E : Engine)

/-- The node with a body that an id stands for, or the id itself if there is none. -/
def resolved (id : NodeId) : NodeId :=
  match g.resolve id with
  | .ok (target, _) => target
  | .error _ => id

/-- The body that an id stands for; without one, nothing is asked. -/
def shape (id : NodeId) : Shape NodeId :=
  match g.resolve id with
  | .ok (_, shape) => shape
  | .error _ => .anything

/-- The graph as a table of checks, with its expressions as the engine reads them. -/
def table : Table NodeId where
  check id := (((g.shape id).check? E).getD .anything).map g.resolved
  hops := g.size

/-- The nodes that are reached from a node without descending into the value. -/
def unguarded (id : NodeId) : List NodeId := (g.shape id).unguardedRefs.map g.resolved

/-- The number of an id among the nodes visited. -/
def slot (order : List NodeId) (id : NodeId) : Nat := order.idxOf (g.resolved id)

/-- The check of every node visited, in order, with references by number. -/
def checks (order : List NodeId) : List (Check Nat) :=
  order.map fun id ↦ ((g.table E).check id).map (g.slot order)

/-- The validator of the pattern of `root`, if expressions are read by the engine. -/
def compileWith (root : NodeId) : Except Fault Validator :=
  match g.visit E root with
  | .error fault => .error fault
  | .ok order =>
    match searchAll g.unguarded order.length order with
    | .error id => .error ⟨id, .unguardedCycle⟩
    | .ok _ => .ok ⟨(g.checks E order).toArray, g.slot order root⟩

end Graph

end JsonPattern
