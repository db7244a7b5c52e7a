import JsonPattern.Regex.Automaton.Plan

/-!
# Limits

An expression is accepted if its source is nested at most 250 deep and if two automata for it, one
that reads forwards and one that reads backwards, fit in the room that is given out.
-/

namespace JsonPattern

namespace ReducedRegex

/-- Whether matches are bound to that end of a text at which an automaton begins. -/
def isAnchored (r : ReducedRegex) : Direction → Bool
  | .forwards => r.beginsWith .textStart
  | .backwards => r.endsWith .textEnd

/-- The plan of a whole automaton. Unless matches are bound to the end of the text, it begins with a
loop over all bytes. The whole match is marked as a group is, and there is a final state. -/
def wholePlan (r : ReducedRegex) (direction : Direction) : Plan :=
  let loop : Plan :=
    if r.isAnchored direction then .one else .fork ++ .states 2 (stateSize + switchSize 1)
  loop ++ (r.group.plan direction ++ .one)

/-- Whether the automata of an expression fit in the room that is given out. -/
def fits (r : ReducedRegex) : Bool :=
  ((r.wholePlan .forwards).run .forwards .empty).isSome &&
    ((r.wholePlan .backwards).run .backwards .empty).isSome

end ReducedRegex

/-- The expression of a tree, if it is within the limits. -/
def RegexTree.regex? (tree : RegexTree) : Option Regex :=
  if tree.depth ≤ 250 && (ReducedRegex.ofTree tree).fits then some tree.regex else none

end JsonPattern
