import JsonPattern.Regex.Automaton.Room
import JsonPattern.Regex.ClassRanges

/-!
# The states of a class

A class of ASCII characters takes one state with a way out for each of its ranges, and one state in
which they end. A class with other characters is read byte by byte, from the first byte of a
character to the last or the other way round.

Forwards, the sequences of byte ranges of the class are arranged in a tree, and the states are made
from its leaves to its root; states with the same ways out are shared. Backwards, there is a fork to
the last byte of every sequence, and sequences share the states of what they begin with.
-/

namespace JsonPattern

/-- The direction in which an automaton reads a text. -/
inductive Direction
  | forwards
  | backwards
  deriving DecidableEq

/-- The ways out of a state: ranges of bytes with the numbers of the states they lead to. -/
abbrev Ways := List (Span × Nat)

/-- The number of the state that reads the rest of one of several sequences, which are in ascending
order and at most so long, and then leads to the state `final`. -/
def switchState (final : Nat) : Nat → List (List Span) → Memo Ways → Nat × Memo Ways
  | 0, _, memo => (final, memo)
  | length + 1, sequences, memo =>
    if sequences.all List.isEmpty then (final, memo)
    else
      let groups := sequences.splitBy fun a b ↦ a.head? == b.head?
      let (ways, memo) := groups.foldl (fun ((ways, memo) : Ways × Memo Ways) group ↦
        let (number, memo) := switchState final length (group.map (List.drop 1)) memo
        (((group.head?.bind List.head?).getD (0, 0), number) :: ways, memo)) ([], memo)
      let ways := ways.reverse
      memo.state (memoPlace 10000 (ways.flatMap fun (span, number) ↦ [span.1, span.2, number])) ways
        (switchSize ways.length)

/-- The number of the state that reads a sequence backwards and then leads to the state `final`. -/
def chainState (final : Nat) (sequence : List Span) (memo : Memo (Nat × Span)) :
    Nat × Memo (Nat × Span) :=
  sequence.foldl (fun ((next, memo) : Nat × Memo (Nat × Span)) span ↦
    memo.state (memoPlace 1000 [next, span.1, span.2]) (next, span) stateSize) (final, memo)

/-- Makes the states of a class with characters beyond ASCII, given its sequences of byte ranges. -/
def Room.addClass (direction : Direction) (sequences : List (List Span)) (room : Room) : Room :=
  let first := room.states
  match direction with
  | .forwards => (switchState first 4 sequences (.start (room.grow 1 stateSize))).2.room
  | .backwards =>
    (sequences.foldl (fun memo sequence ↦ (chainState (first + 1) sequence memo).2)
      (.start (room.grow 2 (forkSize sequences.length + stateSize)))).room

end JsonPattern
