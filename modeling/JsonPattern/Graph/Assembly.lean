import JsonPattern.Graph.Compile

/-!
# Assembling a validator in one walk

A validator can also be made in a single walk through the graph. A node gets its slot, with a
placeholder in it, before its references are followed, so that a reference back to a node that is
still being assembled finds a slot; the placeholder is replaced when the node is finished. A memo
keeps the slot of every id that was met, cyclic references included.

The loops of the walk count their rounds and yield nothing where the rounds given are not enough:
the chase of references, which keeps the references followed; the sifting of flatten targets, which
keeps a stack of pending targets; the descent into nodes; and the sweep for cycles, which keeps a
stack of open nodes.
-/

namespace JsonPattern

namespace Graph

variable (g : Graph)

/-- Follows cyclic references from `id`, when the references `seen` are followed already. -/
def chase (origin : NodeId) : Nat → List NodeId → NodeId →
    Option (Except Fault (NodeId × Shape NodeId))
  | 0, _, _ => none
  | rounds + 1, seen, id =>
    match g.get id with
    | .error fault => some (.error fault)
    | .ok (.body shape) => some (.ok (id, shape))
    | .ok (.cyclic target) =>
      if id ∈ seen then some (.error ⟨origin, .endlessReference⟩)
      else chase origin rounds (id :: seen) target

section

variable (rounds : Nat)

/-- The node with a body that an id stands for, and its body. -/
def chaseFrom (id : NodeId) : Option (Except Fault (NodeId × Shape NodeId)) :=
  g.chase id rounds [] id

/-- Tests the pending flatten targets of `owner`, the last one pushed first. -/
def sift (owner : NodeId) : Nat → List NodeId → List NodeId → Option (Except Fault Unit)
  | _, [], _ => some (.ok ())
  | 0, _ :: _, _ => none
  | left + 1, id :: pending, seen =>
    match g.chaseFrom rounds id with
    | none => none
    | some (.error fault) => some (.error fault)
    | some (.ok (id, shape)) =>
      if id ∈ seen then sift owner left pending seen
      else
        match shape with
        | .object _ => sift owner left pending (id :: seen)
        | .oneOf alternatives => sift owner left (alternatives.reverse ++ pending) (id :: seen)
        | _ => some (.error ⟨owner, .invalidFlatten id⟩)

end

end Graph

/-! ### The walk -/

/-- The checks in the making. -/
structure Arena where
  /-- The slot of every id that has one. -/
  memo : NodeId → Option Nat
  /-- The checks by slot. That of a node which is being assembled is a placeholder. -/
  checks : Array (Check Nat)
  /-- The nodes with a slot, in the order of their slots. -/
  bodies : List NodeId

namespace Arena

/-- The arena without checks. -/
def empty : Arena := ⟨fun _ ↦ none, #[], []⟩

/-- Keeps the slot of an id. -/
def remember (arena : Arena) (id : NodeId) (slot : Nat) : Arena :=
  { arena with memo := fun other ↦ if other = id then some slot else arena.memo other }

/-- Gives a node the next slot, with a placeholder in it. -/
def reserve (arena : Arena) (id : NodeId) : Arena :=
  { memo := (arena.remember id arena.checks.size).memo
    checks := arena.checks.push .anything
    bodies := arena.bodies ++ [id] }

/-- Replaces the check in a slot. -/
def install (arena : Arena) (slot : Nat) (check : Check Nat) : Arena :=
  { arena with checks := arena.checks.setIfInBounds slot check }

end Arena

/-- A step of the walk. It yields nothing if its rounds are not enough. -/
abbrev Assembly (α : Type) := StateT Arena (ExceptT Fault Option) α

namespace Assembly

/-- Ends the walk with a fault. -/
def fail {α : Type} (fault : Fault) : Assembly α := fun _ ↦ some (.error fault)

/-- Takes over a result found without the arena. -/
def lift {α : Type} (result : Option (Except Fault α)) : Assembly α := fun arena ↦
  result.map fun result ↦ result.map fun a ↦ (a, arena)

/-- Changes the arena. -/
def change (f : Arena → Arena) : Assembly Unit := fun arena ↦ some (.ok ((), f arena))

/-- Reads off the arena. -/
def read {α : Type} (f : Arena → α) : Assembly α := fun arena ↦ some (.ok (f arena, arena))

end Assembly

section Clauses

variable (descend : NodeId → Assembly Nat) (testFlatten : NodeId → NodeId → Assembly Unit)
  (owner : NodeId)

mutual

/-- Assembles a clause of the node `owner`, given the descent into nodes and the test of flatten
targets. -/
def Clause.assemble : Clause NodeId → Assembly (Clause Nat)
  | .named name value => return .named name (← descend value)
  | .optional group => return .optional (← assembleGroup group)
  | .many value => return .many (← descend value)
  | .flatten target => do
    testFlatten owner target
    return .flatten (← descend target)
  | .oneOf groups => do
    if groups.isEmpty then Assembly.fail ⟨owner, .noGroups⟩
    return .oneOf (← assembleGroups groups)
termination_by structural clause => clause

/-- Assembles a list of clauses. -/
def assembleGroup : List (Clause NodeId) → Assembly (List (Clause Nat))
  | [] => return []
  | clause :: group => do
    if clause.isMany && !group.isEmpty then Assembly.fail ⟨owner, .misplacedMany⟩
    let clause ← clause.assemble
    return clause :: (← assembleGroup group)
termination_by structural group => group

/-- Assembles a list of groups. -/
def assembleGroups : List (List (Clause NodeId)) → Assembly (List (List (Clause Nat)))
  | [] => return []
  | group :: groups => do
    let group ← assembleGroup group
    return group :: (← assembleGroups groups)
termination_by structural groups => groups

end

/-- Assembles the check of a body, whose expression is read by the engine. -/
def Shape.assemble (E : Engine) : Shape NodeId → Assembly (Check Nat)
  | .literal value =>
    if value.isScalar then return .literal value
    else Assembly.fail ⟨owner, .nonScalarLiteral value⟩
  | .type name => return name.check E
  | .regex source =>
    match E.read source with
    | .ok matcher => return .regex matcher ("/" ++ source ++ "/")
    | .error explanation => Assembly.fail ⟨owner, .invalidRegex source explanation⟩
  | .arrayOf element => return .arrayOf (← descend element)
  | .object clauses => return .object (← assembleGroup descend testFlatten owner clauses)
  | .oneOf alternatives => do
    if alternatives.isEmpty then Assembly.fail ⟨owner, .noAlternatives⟩
    return .oneOf (← alternatives.mapM descend)
  | .anything => return .anything

end Clauses

namespace Graph

variable (g : Graph) (E : Engine) (rounds : Nat)

/-- Tests a flatten target of `owner`. -/
def siftTest (owner target : NodeId) : Assembly Unit :=
  Assembly.lift (g.sift rounds owner rounds [target] [])

/-- Descends into a node over at most so many levels, and yields its slot. -/
def descend : Nat → NodeId → Assembly Nat
  | 0, _ => Assembly.lift none
  | levels + 1, id => do
    if let some slot ← Assembly.read (·.memo id) then return slot
    match g.get id with
    | .error fault => Assembly.fail fault
    | .ok (.cyclic _) =>
      let (target, _) ← Assembly.lift (g.chaseFrom rounds id)
      let slot ← descend levels target
      Assembly.change (·.remember id slot)
      return slot
    | .ok (.body shape) =>
      let slot ← Assembly.read (·.checks.size)
      Assembly.change (·.reserve id)
      let check ← shape.assemble (descend levels) (g.siftTest rounds) id E
      Assembly.change (·.install slot check)
      return slot

end Graph

/-! ### The sweep for cycles -/

section Sweep

variable {α : Type} [DecidableEq α] (successors : α → List α)

/-- Sweeps from the open nodes on a stack, each with the successors that it has not looked at. -/
def sweep : Nat → List (α × List α) → List α → Option (Except α (List α))
  | _, [], done => some (.ok done)
  | 0, _ :: _, _ => none
  | left + 1, (v, []) :: stack, done => sweep left stack (v :: done)
  | left + 1, (v, w :: ws) :: stack, done =>
    if w ∈ v :: stack.map Prod.fst then some (.error w)
    else if w ∈ done then sweep left ((v, ws) :: stack) done
    else sweep left ((w, successors w) :: (v, ws) :: stack) done

/-- Sweeps from each of the starting nodes in turn. -/
def sweepAll (rounds : Nat) : List α → List α → Option (Except α (List α))
  | [], done => some (.ok done)
  | v :: starts, done =>
    if v ∈ done then sweepAll rounds starts done
    else
      match sweep successors rounds [(v, successors v)] done with
      | none => none
      | some (.error w) => some (.error w)
      | some (.ok done) => sweepAll rounds starts done

end Sweep

/-- Assembles the validator of the pattern of `root`: its slot and the arena with all checks. No
loop makes more than `rounds` rounds. -/
def Graph.assemble (g : Graph) (E : Engine) (rounds : Nat) (root : NodeId) :
    Option (Except Fault (Nat × Arena)) :=
  match g.descend E rounds rounds root .empty with
  | none => none
  | some (.error fault) => some (.error fault)
  | some (.ok (slot, arena)) =>
    match sweepAll g.unguarded rounds arena.bodies [] with
    | none => none
    | some (.error id) => some (.error ⟨id, .unguardedCycle⟩)
    | some (.ok _) => some (.ok (slot, arena))

/-- The validator with the checks of an arena. -/
def Arena.validator (slot : Nat) (arena : Arena) : Validator := ⟨arena.checks, slot⟩

end JsonPattern
