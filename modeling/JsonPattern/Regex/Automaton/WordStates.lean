import JsonPattern.Regex.Automaton.Room

/-!
# The states of a choice between words

Words are arranged in a tree by their bytes. Where a word ends in a node, the ways out that were
there before are tried before the end, and those that come later after it; so the ways out of a node
come in *batches*. A node without ways out needs no state of its own, since the way to it leads to
the end at once.
-/

namespace JsonPattern

/-- The words without the first of their characters, in batches that are separated by the words that
have none. -/
def wordBatches (words : List (List UInt8)) : List (List (List UInt8)) :=
  words.foldr (fun word batches ↦
    match word, batches with
    | [], batches => [] :: batches
    | word, batch :: batches => (word :: batch) :: batches
    | word, [] => [[word]]) [[]]

/-- Leaves out repeated ends of words that come before all ways out. -/
def dropRepeatedEnds : List (List (List UInt8)) → List (List (List UInt8))
  | [] :: [] :: batches => dropRepeatedEnds ([] :: batches)
  | batches => batches

/-- The bytes with which words begin, without repeats. -/
def firstBytes (words : List (List UInt8)) : List UInt8 :=
  (words.filterMap List.head?).eraseDups

/-- What follows a byte in those words that begin with it. -/
def wordsAfter (byte : UInt8) (words : List (List UInt8)) : List (List UInt8) :=
  words.filterMap fun word ↦
    match word with
    | [] => none
    | first :: rest => if first = byte then some rest else none

/-- The number of states of the tree of words, which are at most so long, and the bytes they take.
A batch has a state with its ways out; a node has a fork to its batches and to the ends between
them. -/
def wordStates : Nat → List (List UInt8) → Nat × Nat
  | 0, _ => (0, 0)
  | length + 1, words =>
    if words.all List.isEmpty then (0, 0)
    else
      let batches := dropRepeatedEnds (wordBatches words)
      let used := batches.filter (!·.isEmpty)
      let fork := (1, forkSize (used.length + (batches.length - 1)))
      used.foldl (fun (states, bytes) batch ↦
        let firsts := firstBytes batch
        let own := if firsts.length = 1 then stateSize else switchSize firsts.length
        firsts.foldl (fun (states, bytes) byte ↦
          let (moreStates, moreBytes) := wordStates length (wordsAfter byte batch)
          (states + moreStates, bytes + moreBytes)) (states + 1, bytes + own)) fork

end JsonPattern
