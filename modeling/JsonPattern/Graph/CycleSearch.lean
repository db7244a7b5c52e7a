/-!
# Search for cycles

A depth-first search of a relation given by the list of successors of each node. Nodes are *open*
while their successors are searched and *done* afterwards. The search ends at the first successor
that is open, and such a node lies on a cycle; if there is none, the nodes that are done are
returned.
-/

namespace JsonPattern

variable {α : Type} [DecidableEq α] (successors : α → List α)

/-- Searches from `v`, which is inside the nodes `around`, when the nodes `done` need not be
searched again. The open nodes are different from each other, so a budget of the number of nodes is
never used up. -/
def searchFrom : Nat → List α → List α → α → Except α (List α)
  | 0, _, done, _ => .ok done
  | budget + 1, around, done, v => do
    let done ← (successors v).foldlM
      (fun done w ↦
        if w ∈ v :: around then .error w
        else if w ∈ done then .ok done
        else searchFrom budget (v :: around) done w)
      done
    return v :: done

/-- Searches from each of the starting nodes in turn. -/
def searchAll (budget : Nat) (starts : List α) : Except α (List α) :=
  starts.foldlM
    (fun done v ↦ if v ∈ done then .ok done else searchFrom successors budget [] done v) []

end JsonPattern
