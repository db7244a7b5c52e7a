import JsonPattern.Graph.Assembly
import JsonPattern.Graph.Outline

/-!
# Writing a text in two passes

The text of a pattern can also be written without its outline at hand, in two passes that follow
the references anew. The first pass collects the nodes that are met again while they are open. The
second pass writes into a buffer: a collected node gets the next number each time it is entered,
and where a node is met again, its latest number is written. Beside the text, the second pass
yields what it has written as a tree.

No pass keeps the nodes that it has left, so shared nodes are entered again. Both passes count
their levels and yield nothing where the levels given are not enough.
-/

namespace JsonPattern

/-- What the second pass has written so far. -/
structure Pen where
  /-- The latest number of every node that has one. -/
  labels : NodeId → Option Nat
  /-- The last number given out. -/
  count : Nat
  /-- The text. -/
  out : String

/-- The pen before anything is written. -/
def Pen.fresh : Pen := ⟨fun _ ↦ none, 0, ""⟩

/-- A step of the second pass. It yields nothing if its levels are not enough. -/
abbrev Drawing (α : Type) := StateT Pen (ExceptT Fault Option) α

namespace Drawing

variable {α : Type}

/-- Takes over a result found without the pen. -/
def lift (result : Option (Except Fault α)) : Drawing α := fun pen ↦
  result.map fun result ↦ result.map fun a ↦ (a, pen)

/-- Reads off the pen. -/
def read (f : Pen → α) : Drawing α := fun pen ↦ some (.ok (f pen, pen))

/-- Writes a text. -/
def write (text : String) : Drawing Unit := fun pen ↦
  some (.ok ((), { pen with out := pen.out ++ text }))

/-- Gives a node the next number. -/
def label (id : NodeId) : Drawing Nat := fun pen ↦
  let number := pen.count + 1
  some (.ok (number, { pen with
    labels := fun other ↦ if other = id then some number else pen.labels other
    count := number }))

end Drawing

section Clauses

variable {ρ β : Type} (drawRef : ρ → Drawing β)

mutual

/-- Draws a clause, given how its references are drawn. -/
def Clause.draw : Clause ρ → Drawing (Clause β)
  | .named name value => do
    Drawing.write (Json.quoted name ++ ": ")
    return .named name (← drawRef value)
  | .optional group => do
    Drawing.write "optional \x7b"
    let group ← drawGroup "" group
    Drawing.write "\x7d"
    return .optional group
  | .many value => do
    Drawing.write "*: "
    return .many (← drawRef value)
  | .flatten target => do
    Drawing.write "..."
    return .flatten (← drawRef target)
  | .oneOf groups => do
    Drawing.write "one_of("
    let groups ← drawGroups "" groups
    Drawing.write ")"
    return .oneOf groups
termination_by structural clause => clause

/-- Draws the clauses of a list, with commas between them, after a lead. -/
def drawGroup : String → List (Clause ρ) → Drawing (List (Clause β))
  | _, [] => return []
  | lead, clause :: group => do
    Drawing.write lead
    let clause ← clause.draw
    return clause :: (← drawGroup ", " group)
termination_by structural _ group => group

/-- Draws groups, each in braces, with bars between them, after a lead. -/
def drawGroups : String → List (List (Clause ρ)) → Drawing (List (List (Clause β)))
  | _, [] => return []
  | lead, group :: groups => do
    Drawing.write (lead ++ "\x7b")
    let group ← drawGroup "" group
    Drawing.write "\x7d"
    return group :: (← drawGroups " | " groups)
termination_by structural _ groups => groups

end

/-- Draws alternatives, with bars between them, after a lead. -/
def drawAlternatives : String → List ρ → Drawing (List β)
  | _, [] => return []
  | lead, alternative :: alternatives => do
    Drawing.write lead
    let alternative ← drawRef alternative
    return alternative :: (← drawAlternatives " | " alternatives)

/-- Draws a body. -/
def Shape.draw : Shape ρ → Drawing (Shape β)
  | .literal value => do
    Drawing.write value.text
    return .literal value
  | .type name => do
    Drawing.write name.label
    return .type name
  | .regex source => do
    Drawing.write ("/" ++ source ++ "/")
    return .regex source
  | .arrayOf element => do
    Drawing.write "["
    let element ← drawRef element
    Drawing.write "]"
    return .arrayOf element
  | .object clauses => do
    Drawing.write "\x7b"
    let clauses ← drawGroup drawRef "" clauses
    Drawing.write "\x7d"
    return .object clauses
  | .oneOf alternatives => do
    Drawing.write "one_of("
    let alternatives ← drawAlternatives drawRef "" alternatives
    Drawing.write ")"
    return .oneOf alternatives
  | .anything => do
    Drawing.write "anything"
    return .anything

end Clauses

namespace Graph

variable (g : Graph) (rounds : Nat)

/-- The first pass through the pattern of `id` inside the nodes `around`: adds the nodes that are
met again to `heads`. -/
def collectHeads : Nat → List NodeId → List NodeId → NodeId → Option (Except Fault (List NodeId))
  | 0, _, _, _ => none
  | levels + 1, around, heads, id =>
    match g.chaseFrom rounds id with
    | none => none
    | some (.error fault) => some (.error fault)
    | some (.ok (id, shape)) =>
      if id ∈ around then some (.ok (heads ++ [id]))
      else
        shape.refs.foldlM (m := ExceptT Fault Option) (collectHeads levels (id :: around)) heads

/-- The second pass through the pattern of `id` inside the nodes `around`, given the nodes that are
met again. -/
def draw (heads : List NodeId) : Nat → List NodeId → NodeId → Drawing Outline.Numbered
  | 0, _, _ => Drawing.lift none
  | levels + 1, around, id => do
    let (id, shape) ← Drawing.lift (g.chaseFrom rounds id)
    if id ∈ around then
      let number := (← Drawing.read (·.labels id)).getD 0
      Drawing.write ("#" ++ toString number)
      return .again (id, number)
    else if id ∈ heads then
      let number ← Drawing.label id
      Drawing.write ("#" ++ toString number ++ "=")
      return .node (id, some number) (← shape.draw (draw heads levels (id :: around)))
    else
      return .node (id, none) (← shape.draw (draw heads levels (id :: around)))

/-- Both passes through the pattern of `root`: the tree that is drawn, and the text. No loop makes
more than `rounds` rounds. -/
def display (root : NodeId) : Option (Except Fault (Outline.Numbered × String)) :=
  match g.collectHeads rounds rounds [] [] root with
  | none => none
  | some (.error fault) => some (.error fault)
  | some (.ok heads) =>
    match g.draw rounds heads rounds [] root .fresh with
    | none => none
    | some (.error fault) => some (.error fault)
    | some (.ok (tree, pen)) => some (.ok (tree, pen.out))

end Graph

end JsonPattern
