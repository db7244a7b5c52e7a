import JsonPattern.Regex.ClassRanges
import JsonPattern.Regex.Tree

/-!
# Reduced expressions

A source tree is reduced before an automaton is built from it. Characters that stand next to each
other are one word; a class of one character is a word; a repetition of nothing, or once, is left
out; a choice between single characters, or between classes, is one class; and what all branches of
a choice begin with is written once in front of it. `ReducedRegex.ofTree` does so from the leaves to
the root.
-/

namespace JsonPattern

/-- A reduced expression. -/
inductive ReducedRegex
  /-- Nothing. -/
  | empty
  /-- The characters of a word, one after the other. -/
  | word (cs : List Char)
  /-- One of the characters in an ascending list of ranges. -/
  | chars (spans : List Span)
  /-- A test of the surroundings. -/
  | look (test : Look)
  /-- A group that captures. -/
  | group (body : ReducedRegex)
  /-- A repetition, which prefers many rounds if it is greedy. -/
  | repeated (body : ReducedRegex) (low : Nat) (high : Option Nat) (greedy : Bool)
  /-- Several items one after the other. -/
  | concat (items : List ReducedRegex)
  /-- One of several branches. -/
  | choice (branches : List ReducedRegex)

namespace ReducedRegex

/-! ### Properties -/

mutual

/-- Whether two expressions are written alike. A group that captures is like no other, since every
group has a number of its own. -/
def alike : ReducedRegex → ReducedRegex → Bool
  | .empty, .empty => true
  | .word a, .word b => a == b
  | .chars a, .chars b => a == b
  | .look a, .look b => a == b
  | .repeated a low high greedy, .repeated b low' high' greedy' =>
    low == low' && high == high' && greedy == greedy' && a.alike b
  | .concat a, .concat b => allAlike a b
  | .choice a, .choice b => allAlike a b
  | _, _ => false
termination_by structural a => a

/-- Whether the expressions of two lists are written alike, one by one. -/
def allAlike : List ReducedRegex → List ReducedRegex → Bool
  | [], [] => true
  | a :: as, b :: bs => a.alike b && allAlike as bs
  | _, _ => false
termination_by structural as => as

end

mutual

/-- The number of parts of an expression. -/
def weight : ReducedRegex → Nat
  | .empty | .word _ | .chars _ | .look _ => 1
  | .group body => body.weight + 1
  | .repeated body _ _ _ => body.weight + 1
  | .concat items => listWeight items + 1
  | .choice branches => listWeight branches + 1
termination_by structural r => r

/-- The number of parts of several expressions. -/
def listWeight : List ReducedRegex → Nat
  | [] => 0
  | r :: rs => r.weight + listWeight rs
termination_by structural rs => rs

end

mutual

/-- Whether an expression takes no character, whatever it matches. -/
def isZeroWidth : ReducedRegex → Bool
  | .empty | .look _ => true
  | .word _ | .chars _ => false
  | .group body => body.isZeroWidth
  | .repeated body _ high _ => high.isSome && body.isZeroWidth
  | .concat items => allZeroWidth items
  | .choice branches => allZeroWidth branches
termination_by structural r => r

/-- Whether several expressions take no character. -/
def allZeroWidth : List ReducedRegex → Bool
  | [] => true
  | r :: rs => r.isZeroWidth && allZeroWidth rs
termination_by structural rs => rs

end

mutual

/-- The least number of characters that an expression takes, unless one of its parts is a class
without characters. -/
def minLength? : ReducedRegex → Option Nat
  | .empty | .look _ => some 0
  | .word cs => some cs.length
  | .chars spans => if spans.isEmpty then none else some 1
  | .group body => body.minLength?
  | .repeated body low _ _ => body.minLength?.map (low * ·)
  | .concat items => sumMinLength? items
  | .choice branches => leastMinLength? branches
termination_by structural r => r

/-- The least number of characters that several expressions take one after the other. -/
def sumMinLength? : List ReducedRegex → Option Nat
  | [] => some 0
  | r :: rs => do return (← r.minLength?) + (← sumMinLength? rs)
termination_by structural rs => rs

/-- The least number of characters that one of several expressions takes. -/
def leastMinLength? : List ReducedRegex → Option Nat
  | [] => none
  | [r] => r.minLength?
  | r :: rs => do return min (← r.minLength?) (← leastMinLength? rs)
termination_by structural rs => rs

end

/-- Whether an expression certainly takes a character. -/
def consumes (r : ReducedRegex) : Bool := r.minLength?.any (0 < ·)

mutual

/-- Whether a test is made before any character is taken, whatever is matched. -/
def beginsWith (test : Look) : ReducedRegex → Bool
  | .empty | .word _ | .chars _ => false
  | .look other => other == test
  | .group body => body.beginsWith test
  | .repeated body low _ _ => low != 0 && body.beginsWith test
  | .concat items => someBeginWith test items
  | .choice branches => allBeginWith test branches
termination_by structural r => r

/-- Whether a test is made in several expressions, one after the other, before any character is
taken. -/
def someBeginWith (test : Look) : List ReducedRegex → Bool
  | [] => false
  | r :: rs => r.beginsWith test || (r.isZeroWidth && someBeginWith test rs)
termination_by structural rs => rs

/-- Whether a test is made in each of several expressions before any character is taken. -/
def allBeginWith (test : Look) : List ReducedRegex → Bool
  | [] => true
  | r :: rs => r.beginsWith test && allBeginWith test rs
termination_by structural rs => rs

end

mutual

/-- Whether a test is made after all characters are taken, whatever is matched. -/
def endsWith (test : Look) : ReducedRegex → Bool
  | .empty | .word _ | .chars _ => false
  | .look other => other == test
  | .group body => body.endsWith test
  | .repeated body low _ _ => low != 0 && body.endsWith test
  | .concat items => someEndWith test items
  | .choice branches => allEndWith test branches
termination_by structural r => r

/-- Whether a test is made in several expressions, one after the other, after all characters are
taken. -/
def someEndWith (test : Look) : List ReducedRegex → Bool
  | [] => false
  | r :: rs => someEndWith test rs || (allZeroWidth rs && r.endsWith test)
termination_by structural rs => rs

/-- Whether a test is made in each of several expressions after all characters are taken. -/
def allEndWith (test : Look) : List ReducedRegex → Bool
  | [] => true
  | r :: rs => r.endsWith test && allEndWith test rs
termination_by structural rs => rs

end

/-! ### Reduction -/

/-- One of the characters in an ascending list of ranges; a single one is a word. -/
def ofSpans (spans : List Span) : ReducedRegex :=
  match spans with
  | [(low, high)] => if low = high then .word [Char.ofNat low] else .chars spans
  | spans => .chars spans

/-- A repetition. An expression that takes no character is repeated once at most. -/
def ofRepetition (body : ReducedRegex) (low : Nat) (high : Option Nat) (greedy : Bool) :
    ReducedRegex :=
  let (low, high) :=
    if body.isZeroWidth then (min low 1, some (min (high.getD 1) 1)) else (low, high)
  if high = some 0 then .empty
  else if low = 1 ∧ high = some 1 then body
  else .repeated body low high greedy

/-- The items of an expression that is a sequence. -/
def items : ReducedRegex → List ReducedRegex
  | .empty => []
  | .concat items => items
  | r => [r]

/-- Puts an expression in front of others and joins words. -/
def prepend (r : ReducedRegex) (rs : List ReducedRegex) : List ReducedRegex :=
  match r, rs with
  | .word a, .word b :: rs => .word (a ++ b) :: rs
  | r, rs => r :: rs

/-- Several expressions one after the other. -/
def ofConcat (rs : List ReducedRegex) : ReducedRegex :=
  match (rs.flatMap items).foldr prepend [] with
  | [] => .empty
  | [r] => r
  | items => .concat items

/-- The branches of an expression that is a choice. -/
def branches : ReducedRegex → List ReducedRegex
  | .choice branches => branches
  | r => [r]

/-- The ranges of a choice between single characters. -/
def singleSpans? (rs : List ReducedRegex) : Option (List Span) :=
  (rs.mapM fun (r : ReducedRegex) ↦
    match r with
    | .word [c] => some (c.toNat, c.toNat)
    | _ => none).map fun (spans : List Span) ↦ joinSpans (spans.mergeSort fun s t ↦ s.1 ≤ t.1)

/-- The ranges of a choice between classes. -/
def classSpans? (rs : List ReducedRegex) : Option (List Span) :=
  (rs.mapM fun (r : ReducedRegex) ↦
    match r with
    | .chars spans => some spans
    | _ => none).map fun (classes : List (List Span)) ↦ classes.foldl unionSpans []

/-- The items of an expression that is a sequence of at least two. -/
def manyItems : ReducedRegex → List ReducedRegex
  | .concat items => items
  | _ => []

/-- What two lists begin with. -/
def commonItems (as bs : List ReducedRegex) : List ReducedRegex :=
  ((as.zip bs).takeWhile fun (a, b) ↦ a.alike b).map Prod.fst

/-- One of several expressions. What all of them begin with is written in front; the rest is a
choice with fewer parts, so a budget of the number of parts is never used up. -/
def ofChoice : Nat → List ReducedRegex → ReducedRegex
  | budget, rs =>
    match rs.flatMap branches with
    | [] => .chars []
    | [r] => r
    | r :: rs =>
      match singleSpans? (r :: rs) <|> classSpans? (r :: rs) with
      | some spans => ofSpans spans
      | none =>
        let front := rs.foldl (fun front other ↦ commonItems front other.manyItems) r.manyItems
        match budget with
        | 0 => .choice (r :: rs)
        | budget + 1 =>
          if front.isEmpty then .choice (r :: rs)
          else
            let rests := (r :: rs).map fun other ↦ ofConcat (other.manyItems.drop front.length)
            ofConcat (front ++ [ofChoice budget rests])

mutual

/-- The reduced expression of a tree. -/
def ofTree : RegexTree → ReducedRegex
  | .empty | .flags => .empty
  | .chars cls _ => ofSpans cls.spans
  | .look test => .look test
  | .group captures body => if captures then .group (ofTree body) else ofTree body
  | .repeated body low high greedy => ofRepetition (ofTree body) low high greedy
  | .concat items => ofConcat (ofTrees items)
  | .choice branches =>
    let branches := ofTrees branches
    ofChoice (listWeight branches) branches
termination_by structural tree => tree

/-- The reduced expressions of several trees. -/
def ofTrees : List RegexTree → List ReducedRegex
  | [] => []
  | tree :: trees => ofTree tree :: ofTrees trees
termination_by structural trees => trees

end

end ReducedRegex

end JsonPattern
