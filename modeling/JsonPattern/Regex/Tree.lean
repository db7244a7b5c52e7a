import JsonPattern.Regex.Basic

/-!
# Source trees

The source of a regular expression is read into a tree that keeps its groups, sequences, choices
and counted repetitions. `RegexTree.regex` is what the tree means, and `RegexTree.depth` how deeply
its source is nested.
-/

namespace JsonPattern

/-- The source of a regular expression as a tree. -/
inductive RegexTree
  /-- Nothing. -/
  | empty
  /-- Flags that are set for what follows. -/
  | flags
  /-- One character of a class, whose source is nested to the given depth. -/
  | chars (cls : CharClass) (depth : Nat)
  /-- A test of the surroundings. -/
  | look (test : Look)
  /-- A group, which may capture what it matches. -/
  | group (captures : Bool) (body : RegexTree)
  /-- A repetition, which prefers many rounds if it is greedy. -/
  | repeated (body : RegexTree) (low : Nat) (high : Option Nat) (greedy : Bool)
  /-- Several items one after the other. -/
  | concat (items : List RegexTree)
  /-- One of several branches. -/
  | choice (branches : List RegexTree)

namespace RegexTree

/-- Items one after the other; a single item stands for itself. -/
def ofItems : List RegexTree → RegexTree
  | [] => .empty
  | [item] => item
  | items => .concat items

/-! ### Meaning -/

mutual

/-- The expression that a tree stands for. -/
def regex : RegexTree → Regex
  | .empty => .empty
  | .flags => .empty
  | .chars cls _ => .chars cls
  | .look test => .look test
  | .group _ body => body.regex
  | .repeated body 0 (some 1) _ => .alt body.regex .empty
  | .repeated body 0 none _ => .star body.regex
  | .repeated body 1 none _ => .plus body.regex
  | .repeated body low high _ => .repeated body.regex low high
  | .concat items => concatRegex items
  | .choice branches => choiceRegex branches
termination_by structural tree => tree

/-- The expression of several items one after the other. -/
def concatRegex : List RegexTree → Regex
  | [] => .empty
  | item :: items => .seq item.regex (concatRegex items)
termination_by structural items => items

/-- The expression of a choice; without branches nothing matches. -/
def choiceRegex : List RegexTree → Regex
  | [] => .chars .none
  | branch :: branches => .alt branch.regex (choiceRegex branches)
termination_by structural branches => branches

end

/-! ### Nesting -/

mutual

/-- The number of groups, repetitions, classes, sequences and choices around the most deeply nested
place. -/
def depth : RegexTree → Nat
  | .empty | .flags | .look _ => 0
  | .chars _ depth => depth
  | .group _ body => body.depth + 1
  | .repeated body _ _ _ => body.depth + 1
  | .concat items => listDepth items + 1
  | .choice branches => listDepth branches + 1
termination_by structural tree => tree

/-- The greatest depth of a list of trees. -/
def listDepth : List RegexTree → Nat
  | [] => 0
  | tree :: trees => max tree.depth (listDepth trees)
termination_by structural trees => trees

end

end RegexTree

end JsonPattern
