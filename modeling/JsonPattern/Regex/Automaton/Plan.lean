import JsonPattern.Regex.Automaton.ClassStates
import JsonPattern.Regex.Automaton.WordStates
import JsonPattern.Regex.Reduced

/-!
# Plans of automata

A plan says which states an automaton is made of, one after the other. `Plan.run` makes them, unless
they take more room than is given out. `ReducedRegex.plan` is the plan of the automaton of an
expression: every part has states of its own, and a repetition has them again for every round.
-/

namespace JsonPattern

/-- A plan of an automaton. -/
inductive Plan
  /-- States that take a number of bytes. -/
  | states (count bytes : Nat)
  /-- The states of a class, given its sequences of byte ranges. -/
  | chars (sequences : List (List Span))
  /-- One plan after the other. -/
  | both (first second : Plan)
  /-- A plan a number of times. -/
  | times (count : Nat) (plan : Plan)

namespace Plan

/-- One state without ways out of its own. -/
def one : Plan := .states 1 stateSize

/-- A state with two ways out that are both tried. -/
def fork : Plan := .states 1 (forkSize 2)

/-- One plan after the other; states that are known in number are put together. -/
def append : Plan → Plan → Plan
  | .states count bytes, .states count' bytes' => .states (count + count') (bytes + bytes')
  | first, second => .both first second

instance : Append Plan := ⟨append⟩

/-- Several plans one after the other. -/
def join (plans : List Plan) : Plan := plans.foldr (· ++ ·) (.states 0 0)

/-- A plan a number of times. -/
def copies (n : Nat) : Plan → Plan
  | .states count bytes => .states (n * count) (n * bytes)
  | plan => .times n plan

/-- Makes room in a number of rounds, as long as there is some. -/
def rounds (step : Room → Option Room) : Nat → Room → Option Room
  | 0, room => some room
  | n + 1, room =>
    match step room with
    | some room => rounds step n room
    | none => none

/-- Makes the states of a plan, unless they take more room than is given out. -/
def run (direction : Direction) : Plan → Room → Option Room
  | .states count bytes, room => (room.grow count bytes).check?
  | .chars sequences, room => (room.addClass direction sequences).check?
  | .both first second, room =>
    match first.run direction room with
    | some room => second.run direction room
    | none => none
  | .times n plan, room => rounds (plan.run direction) n room

/-- The plan of a class. -/
def ofSpans (spans : List Span) : Plan :=
  if spans.all (·.2 < 128) then .states 2 (stateSize + switchSize spans.length)
  else .chars (spans.flatMap byteSpans)

/-- The plan of a repetition, given that of its body and whether the body certainly takes a
character. -/
def ofRepetition (body : Plan) (consumes : Bool) : Nat → Option Nat → Plan
  | 0, some 1 => fork ++ (body ++ one)
  | 0, none => if consumes then fork ++ body else body ++ (fork ++ (fork ++ one))
  | low, none => copies low body ++ fork
  | low, some high =>
    let front := if low = 0 then one else copies low body
    if low = high then front else front ++ (one ++ copies (high - low) (fork ++ body))

/-- The plan of a choice, given those of its branches. The fork and the state in which the branches
end are made after two branches. -/
def ofChoice (branches : List Plan) : Plan :=
  join (branches.take 2) ++
    (.states 2 (forkSize branches.length + stateSize) ++ join (branches.drop 2))

/-- The plan of a choice between words, given by their bytes in the order of reading. -/
def ofWords (words : List (List UInt8)) : Plan :=
  let (count, bytes) := wordStates ((words.map List.length).foldl max 0) words
  .states (count + 1) (bytes + stateSize)

end Plan

namespace ReducedRegex

/-- The bytes of a word in UTF-8. -/
def wordBytes (cs : List Char) : List UInt8 := cs.flatMap String.utf8EncodeChar

/-- The bytes of several expressions, if all of them are words. -/
def wordsBytes? (rs : List ReducedRegex) : Option (List (List UInt8)) :=
  rs.mapM fun (r : ReducedRegex) ↦
    match r with
    | .word cs => some (wordBytes cs)
    | _ => none

variable (direction : Direction)

mutual

/-- The plan of an expression. Only an automaton that reads forwards marks where groups begin and
end. -/
def plan : ReducedRegex → Plan
  | .empty | .look _ => .one
  | .word cs =>
    let length := (wordBytes cs).length
    .states length (stateSize * length)
  | .chars spans => .ofSpans spans
  | .group body =>
    match direction with
    | .forwards => .one ++ (body.plan ++ .one)
    | .backwards => body.plan
  | .repeated body low high _ => .ofRepetition body.plan body.consumes low high
  | .concat items =>
    let plans := listPlans items
    match direction with
    | .forwards => .join plans
    | .backwards => .join plans.reverse
  | .choice branches =>
    match wordsBytes? branches with
    | some words =>
      match direction with
      | .forwards => .ofWords words
      | .backwards => .ofWords (words.map List.reverse)
    | none => .ofChoice (listPlans branches)
termination_by structural r => r

/-- The plans of several expressions. -/
def listPlans : List ReducedRegex → List Plan
  | [] => []
  | r :: rs => r.plan :: listPlans rs
termination_by structural rs => rs

end

end ReducedRegex

end JsonPattern
