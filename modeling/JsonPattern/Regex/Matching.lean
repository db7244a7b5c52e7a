import JsonPattern.Regex.Basic

/-!
# Matching

`Regex.Matches r text i j` says that `r` matches the part of a text between the places `i` and `j`,
and `Regex.Occurs` that there are such places. `Regex.isMatch` decides whether an expression matches
anywhere in a text: it carries the set of all places that can be reached, as one flag for each
place, through the expression. The set of places collected over the rounds of a repetition grows by
at least one place in each round that is not the last one, so as many rounds as there are places
suffice.
-/

namespace JsonPattern

/-- The places of a text, from its start to its end, when `before` precedes it. -/
def gapsFrom (before : Option Char) : List Char → List Gap
  | [] => [⟨before, none⟩]
  | c :: text => ⟨before, some c⟩ :: gapsFrom (some c) text

/-- The places of a text. There is one more of them than there are characters. -/
def gaps (text : List Char) : List Gap := gapsFrom none text

namespace Regex

/-- `Matches r text i j`: the expression matches the text between the places `i` and `j`. -/
inductive Matches : Regex → List Char → Nat → Nat → Prop
  | empty {text i} : i ≤ text.length → Matches .empty text i i
  | chars {cls text i c} : text[i]? = some c → cls.contains c → Matches (.chars cls) text i (i + 1)
  | look {test text i gap} : (gaps text)[i]? = some gap → test.holds gap →
      Matches (.look test) text i i
  | seq {a b text i j k} : Matches a text i j → Matches b text j k → Matches (.seq a b) text i k
  | altLeft {a b text i j} : Matches a text i j → Matches (.alt a b) text i j
  | altRight {a b text i j} : Matches b text i j → Matches (.alt a b) text i j
  | starNil {a text i} : i ≤ text.length → Matches (.star a) text i i
  | starCons {a text i j k} : Matches a text i j → Matches (.star a) text j k →
      Matches (.star a) text i k
  | timesNil {a text i} : i ≤ text.length → Matches (.times a 0) text i i
  | timesCons {a n text i j k} : Matches a text i j → Matches (.times a n) text j k →
      Matches (.times a (n + 1)) text i k
  | upToNil {a n text i} : i ≤ text.length → Matches (.upTo a n) text i i
  | upToCons {a n text i j k} : Matches a text i j → Matches (.upTo a n) text j k →
      Matches (.upTo a (n + 1)) text i k

/-- An expression occurs in a text if it matches between two places of it. -/
def Occurs (r : Regex) (text : List Char) : Prop := ∃ i j, r.Matches text i j

/-- Applies a step to a set of places a number of times. A set that the step does not change stays
the same in all further rounds. -/
def iterate (step : List Bool → List Bool) : Nat → List Bool → List Bool
  | 0, places => places
  | rounds + 1, places =>
    let next := step places
    if next = places then places else iterate step rounds next

/-- Applies a step to a set of places again and again and collects what is reached, until nothing
new is or the rounds are used up. -/
def closure (step : List Bool → List Bool) : Nat → List Bool → List Bool
  | 0, places => places
  | rounds + 1, places =>
    let more := places.zipWith (· || ·) (step places)
    if more = places then places else closure step rounds more

/-- The places that can be reached through an expression from one of the given places. -/
def reach (gaps : List Gap) : Regex → List Bool → List Bool
  | .empty, places => places
  | .chars cls, places =>
    false :: (places.zipWith (fun place gap ↦ place && gap.after.any cls.contains) gaps).dropLast
  | .look test, places => places.zipWith (fun place gap ↦ place && test.holds gap) gaps
  | .seq a b, places => b.reach gaps (a.reach gaps places)
  | .alt a b, places => (a.reach gaps places).zipWith (· || ·) (b.reach gaps places)
  | .star a, places => closure (a.reach gaps) gaps.length places
  | .times a n, places => iterate (a.reach gaps) n places
  | .upTo a n, places => closure (a.reach gaps) n places

/-- Whether an expression matches somewhere in a text. -/
def isMatch (r : Regex) (text : String) : Bool :=
  let gaps := gaps text.toList
  (r.reach gaps (gaps.map fun _ ↦ true)).any id

end Regex

end JsonPattern
