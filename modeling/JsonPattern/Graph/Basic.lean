import JsonPattern.Graph.Fault

/-!
# Pattern graphs

A pattern graph is a sequence of slots, addressed by ids that are handed out in order. A node may
be referred to before it exists: `Graph.reserve` hands out an id without a pattern, and
`Graph.fill` supplies the pattern later, once and for all. `Graph.get` looks a pattern up, and
`Graph.resolve` follows cyclic references to the body they stand for.
-/

namespace JsonPattern

/-- A pattern graph. A slot without a pattern is reserved. -/
structure Graph where
  /-- The slots, in the order of their ids. -/
  slots : Array (Option Pattern)

namespace Graph

/-- The graph without nodes. -/
def empty : Graph := ⟨#[]⟩

instance : Inhabited Graph := ⟨empty⟩

/-- The number of slots. -/
def size (g : Graph) : Nat := g.slots.size

/-- Whether the graph has no slot. -/
def isEmpty (g : Graph) : Bool := g.slots.isEmpty

/-- The id that is handed out next. -/
def nextId (g : Graph) : NodeId := ⟨g.size⟩

/-- Adds a node with the next id. -/
def add (g : Graph) (pattern : Pattern) : Graph := ⟨g.slots.push (some pattern)⟩

/-- Reserves the next id. -/
def reserve (g : Graph) : Graph := ⟨g.slots.push none⟩

/-- Supplies the pattern of a reserved slot. -/
def fill (g : Graph) (id : NodeId) (pattern : Pattern) : Except Fault Graph :=
  match g.slots[id.index]? with
  | none => .error ⟨id, .unknownPattern⟩
  | some (some _) => .error ⟨id, .slotAlreadyFilled⟩
  | some none => .ok ⟨g.slots.setIfInBounds id.index (some pattern)⟩

/-- The pattern of a node. -/
def get (g : Graph) (id : NodeId) : Except Fault Pattern :=
  match g.slots[id.index]? with
  | none => .error ⟨id, .unknownPattern⟩
  | some none => .error ⟨id, .unfilledSlot⟩
  | some (some pattern) => .ok pattern

/-- Follows cyclic references from `id` over at most `budget` nodes. If the budget runs out, the
chain that began at `origin` is endless. -/
def follow (g : Graph) (origin : NodeId) : Nat → NodeId → Except Fault (NodeId × Shape NodeId)
  | 0, _ => .error ⟨origin, .endlessReference⟩
  | budget + 1, id =>
    match g.get id with
    | .error fault => .error fault
    | .ok (.body shape) => .ok (id, shape)
    | .ok (.cyclic target) => g.follow origin budget target

/-- The node with a body that `id` stands for, and its body. A chain of references that does not
repeat a node is no longer than the graph, so a chain that is longer is endless. -/
def resolve (g : Graph) (id : NodeId) : Except Fault (NodeId × Shape NodeId) :=
  g.follow id (g.size + 1) id

end Graph

end JsonPattern
