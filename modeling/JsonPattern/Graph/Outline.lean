import JsonPattern.Graph.Basic

/-!
# Outlines

The outline of a pattern is the tree that arises when its references are followed, cut wherever a
node is met again that is still open, that is, inside its own unfolding. A node that is shared but
not open is unfolded again at each of its places.

For the text, every open node that is met again gets a number at each of its occurrences, counted
from one in the order of appearance: the occurrence is written `#k=…` and the place where it is
met again `#k`.
-/

namespace JsonPattern

/-- A tree of shapes. A leaf `again` is a place where a node around it is met again. -/
inductive Outline (β ν : Type)
  /-- A node around this place is met again. -/
  | again (mark : β)
  /-- A node with its shape, whose references are unfolded. -/
  | node (mark : ν) (shape : Shape (Outline β ν))

namespace Outline

variable {β ν α : Type}

section Fold

variable (again : β → α) (node : ν → Shape α → α)

mutual

/-- Replaces the nodes of an outline from the leaves upwards. -/
def fold : Outline β ν → α
  | .again mark => again mark
  | .node mark shape => node mark (foldShape shape)
termination_by structural outline => outline

/-- The same on the parts of a shape. -/
def foldShape : Shape (Outline β ν) → Shape α
  | .literal value => .literal value
  | .type name => .type name
  | .regex source => .regex source
  | .arrayOf element => .arrayOf (fold element)
  | .object clauses => .object (foldGroup clauses)
  | .oneOf alternatives => .oneOf (foldAlternatives alternatives)
  | .anything => .anything
termination_by structural shape => shape

/-- The same on the parts of a clause. -/
def foldClause : Clause (Outline β ν) → Clause α
  | .named name value => .named name (fold value)
  | .optional group => .optional (foldGroup group)
  | .many value => .many (fold value)
  | .flatten target => .flatten (fold target)
  | .oneOf groups => .oneOf (foldGroups groups)
termination_by structural clause => clause

/-- The same on the parts of a list of clauses. -/
def foldGroup : List (Clause (Outline β ν)) → List (Clause α)
  | [] => []
  | clause :: group => foldClause clause :: foldGroup group
termination_by structural group => group

/-- The same on the parts of a list of groups. -/
def foldGroups : List (List (Clause (Outline β ν))) → List (List (Clause α))
  | [] => []
  | group :: groups => foldGroup group :: foldGroups groups
termination_by structural groups => groups

/-- The same on a list of alternatives. -/
def foldAlternatives : List (Outline β ν) → List α
  | [] => []
  | alternative :: alternatives => fold alternative :: foldAlternatives alternatives
termination_by structural alternatives => alternatives

end

end Fold

/-- The marks of the places where a node is met again, from left to right. -/
def agains : Outline β ν → List β := fold (fun mark ↦ [mark]) fun _ shape ↦ shape.refs.flatten

/-- An outline in which a node met again carries its number, next to the ids of the nodes. -/
abbrev Numbered := Outline (NodeId × Nat) (NodeId × Option Nat)

/-- Numbers the nodes that are met again, given those around the place with their numbers and the
last number given out. -/
def numberFrom (heads : List NodeId) :
    Outline NodeId NodeId → List (NodeId × Nat) → StateM Nat Numbered :=
  fold
    (fun id around ↦ return .again (id, (around.lookup id).getD 0))
    fun id shape around ↦ do
      if id ∈ heads then
        let number := (← get) + 1
        set number
        return .node (id, some number)
          (← shape.mapM fun number' ↦ number' ((id, number) :: around))
      else
        return .node (id, none) (← shape.mapM fun number' ↦ number' around)

/-- Numbers the nodes that are met again, from one on, in the order of appearance. -/
def numbered (outline : Outline NodeId NodeId) : Numbered :=
  (numberFrom outline.agains outline [] 0).1

/-- The text of a numbered outline. -/
def Numbered.text : Numbered → String :=
  fold (fun (_, number) ↦ "#" ++ toString number) fun (_, number) shape ↦
    match number with
    | some number => "#" ++ toString number ++ "=" ++ shape.text
    | none => shape.text

end Outline

namespace Graph

/-- Unfolds the pattern of `id` inside the nodes `around`. The nodes around a place are different
from each other, so a budget of one more than the nodes of the graph is never used up. -/
def unfold (g : Graph) : Nat → List NodeId → NodeId → Except Fault (Outline NodeId NodeId)
  | 0, _, id => .ok (.again id)
  | budget + 1, around, id => do
    let (id, shape) ← g.resolve id
    if id ∈ around then return .again id
    else return .node id (← shape.mapM (g.unfold budget (id :: around)))

/-- The outline of the pattern of `id`. -/
def outline (g : Graph) (id : NodeId) : Except Fault (Outline NodeId NodeId) :=
  g.unfold (g.size + 1) [] id

/-- The text of the pattern of `id`, with numbers where a node is met again. -/
def text (g : Graph) (id : NodeId) : Except Fault String := do
  return (← g.outline id).numbered.text

end Graph

end JsonPattern
