import JsonPattern.Digits
import JsonPattern.Regex.Automaton.Fit

/-!
# Sources of regular expressions

`Regex.ofSource?` reads an expression from its source, or refuses a source that is none. A source
is a choice of branches; a branch is a sequence of items, each of which may be repeated. Flags are
set for the rest of the group in which they stand, the branches that follow included, or for one
group. With the flag `x` blanks and comments between the parts of an item do not count.

All functions below take what is left of the source and return what is left after them. Those that
call each other have a budget, of which every call spends one; a call consumes a character, or is
followed by one that does, so a budget of three times the length of the source is enough.

## Main definitions

* `Regex.Flags` : the flags in force at a place of the source.
* `Regex.readEscape` : escapes.
* `Regex.readClass` : classes in brackets.
* `Regex.readBounds` : the bounds of repetitions.
* `Regex.readGroupHead` : what stands at the start of a group.
* `Regex.readChoice`, `Regex.readBranch` : branches and their items.
* `Regex.treeOfSource?`, `Regex.ofSource?` : the tree and the expression of a source.
-/

namespace JsonPattern

namespace Regex

/-- The flags in force at a place of the source. -/
structure Flags where
  /-- `i`: letters match in either case. -/
  ignoreCase : Bool
  /-- `m`: the anchors match at the ends of lines. -/
  multiLine : Bool
  /-- `s`: the point matches the line feed too. -/
  dotAll : Bool
  /-- `R`: a carriage return ends a line too. -/
  carriageReturn : Bool
  /-- `u`: classes and tests with a name concern all characters, and not only ASCII. -/
  unicode : Bool
  /-- `x`: blanks and comments do not count. -/
  ignoreBlanks : Bool
  /-- `U`: repetitions prefer few rounds, and many with a question mark. -/
  preferFew : Bool

/-- The flags at the start of a source. -/
def Flags.initial : Flags := ⟨false, false, false, false, true, false, false⟩

/-- Sets the flag of a letter. -/
def Flags.set? (flags : Flags) (letter : Char) (value : Bool) : Option Flags :=
  match letter with
  | 'i' => some { flags with ignoreCase := value }
  | 'm' => some { flags with multiLine := value }
  | 's' => some { flags with dotAll := value }
  | 'R' => some { flags with carriageReturn := value }
  | 'u' => some { flags with unicode := value }
  | 'x' => some { flags with ignoreBlanks := value }
  | 'U' => some { flags with preferFew := value }
  | _ => none

/-! ### Blanks and comments -/

/-- Drops blanks and comments. A comment runs from `#` to the end of its line. -/
def dropBlanks (inComment : Bool) : List Char → List Char
  | [] => []
  | c :: cs =>
    if inComment then dropBlanks (c != '\n') cs
    else if isBlankChar c then dropBlanks false cs
    else if c == '#' then dropBlanks true cs
    else c :: cs

/-- Drops blanks and comments where they do not count. -/
def Flags.skip (flags : Flags) (cs : List Char) : List Char :=
  if flags.ignoreBlanks then dropBlanks false cs else cs

/-- The longest run of characters of some sort, and what follows it. After the first character, or
from the start if the run has `started`, blanks and comments are passed over where they do not
count. -/
def takeRun (flags : Flags) (sort : Char → Bool) (started inComment : Bool) :
    List Char → List Char × List Char
  | [] => ([], [])
  | c :: cs =>
    if inComment then takeRun flags sort started (c != '\n') cs
    else if sort c then
      let (run, rest) := takeRun flags sort true false cs
      (c :: run, rest)
    else if started && flags.ignoreBlanks && (isBlankChar c || c == '#') then
      takeRun flags sort started (c == '#') cs
    else ([], c :: cs)

/-- Looks for the next character that counts, passing over blanks and the first `#`, but not over
what a comment says. -/
def peekPastBlanks? (inComment : Bool) : List Char → Option Char
  | [] => none
  | c :: cs =>
    if isBlankChar c then peekPastBlanks? inComment cs
    else if c == '#' && !inComment then peekPastBlanks? true cs
    else some c

/-- The character that decides whether a hyphen makes a range: the next one, or the next one that
counts, if there is one. -/
def peek? (flags : Flags) (cs : List Char) : Option Char :=
  if flags.ignoreBlanks then peekPastBlanks? false cs <|> cs.head? else cs.head?

/-! ### Escapes -/

/-- What an escape stands for. -/
inductive Escape
  | literal (c : Char)
  /-- A character written as a byte by its two hexadecimal digits. -/
  | byte (c : Char)
  | cls (cls : CharClass)
  | look (test : Look)

/-- The character of a code point, unless it is a surrogate or too great. -/
def charOfCode? (n : Nat) : Option Char :=
  if h : n.isValidChar then some (Char.ofNatAux n h) else none

/-- Reads a fixed number of hexadecimal digits. -/
def readHexDigits (flags : Flags) : Nat → Nat → List Char → Option (Char × List Char)
  | 0, value, cs => (charOfCode? value).map fun c ↦ (c, cs)
  | count + 1, value, cs =>
    match flags.skip cs with
    | [] => none
    | c :: cs =>
      match hexValue? c with
      | none => none
      | some digit => readHexDigits flags count (value * 16 + digit) cs

/-- Reads hexadecimal digits up to the closing brace; at least one is needed. -/
def readHexBraces (flags : Flags) (cs : List Char) : Option (Char × List Char) :=
  let (digits, rest) := takeRun flags (fun c ↦ (hexValue? c).isSome) true false cs
  match digits, rest with
  | _ :: _, '\x7d' :: rest =>
    let value := digits.foldl (fun value c ↦ value * 16 + (hexValue? c).getD 0) 0
    (charOfCode? value).map fun c ↦ (c, rest)
  | _, _ => none

/-- Reads a character by its code, after the letter that announces `digits` digits. -/
def readHex (flags : Flags) (digits : Nat) (cs : List Char) : Option (Escape × List Char) :=
  match flags.skip cs with
  | '\x7b' :: cs => (readHexBraces flags cs).map fun (c, cs) ↦ (.literal c, cs)
  | cs =>
    (readHexDigits flags digits 0 cs).map fun (c, cs) ↦
      (if digits = 2 then .byte c else .literal c, cs)

/-- A test of words, of all characters or of ASCII characters as the flags say. -/
def wordLook (flags : Flags) (test : WordTest) : Look :=
  if flags.unicode then .word test else .asciiWord test

/-- The test of words that a name stands for. -/
def namedWordTest? (name : List Char) : Option WordTest :=
  if name = "start".toList then some .start
  else if name = "end".toList then some .stop
  else if name = "start-half".toList then some .startHalf
  else if name = "end-half".toList then some .stopHalf
  else none

/-- Reads what follows `\b`: a name in braces, if what follows the brace looks like one. -/
def readBoundary (flags : Flags) (cs : List Char) : Option (Escape × List Char) :=
  let boundary := some (.look (wordLook flags .boundary), cs)
  match cs with
  | '\x7b' :: rest =>
    let rest := flags.skip rest
    let (name, rest') := takeRun flags (fun c ↦ c.isAlpha || c == '-') false false rest
    if name.isEmpty then if rest.isEmpty then none else boundary
    else
      match rest' with
      | '\x7d' :: rest' =>
        (namedWordTest? name).map fun test ↦ (.look (wordLook flags test), rest')
      | _ => none
  | _ => boundary

/-- The class of a letter after a backslash, of all characters or of ASCII characters as the flags
say. -/
def escapedClass? (flags : Flags) (letter : Char) : Option CharClass :=
  let digits : CharClass := if flags.unicode then .digit else .range '0' '9'
  let blanks : CharClass := if flags.unicode then .blank else .union (.range '\t' '\r') (.char ' ')
  let words : CharClass :=
    if flags.unicode then .word
    else .union (.range '0' '9') (.union (.range 'A' 'Z') (.union (.char '_') (.range 'a' 'z')))
  let negated (cls : CharClass) := if flags.unicode then some (CharClass.compl cls) else none
  match letter with
  | 'd' => some digits
  | 's' => some blanks
  | 'w' => some words
  | 'D' => negated digits
  | 'S' => negated blanks
  | 'W' => negated words
  | _ => none

/-- Reads an escape after its backslash. Every ASCII character that is neither a letter nor a digit
nor an angle bracket may be escaped and then stands for itself. -/
def readEscape (flags : Flags) : List Char → Option (Escape × List Char)
  | [] => none
  | c :: cs =>
    match c with
    | 'x' => readHex flags 2 cs
    | 'u' => readHex flags 4 cs
    | 'U' => readHex flags 8 cs
    | 'a' => some (.literal '\x07', cs)
    | 'f' => some (.literal '\x0c', cs)
    | 't' => some (.literal '\t', cs)
    | 'n' => some (.literal '\n', cs)
    | 'r' => some (.literal '\r', cs)
    | 'v' => some (.literal '\x0b', cs)
    | 'A' => some (.look .textStart, cs)
    | 'z' => some (.look .textEnd, cs)
    | 'B' => some (.look (wordLook flags .noBoundary), cs)
    | '<' => some (.look (wordLook flags .start), cs)
    | '>' => some (.look (wordLook flags .stop), cs)
    | 'b' => readBoundary flags cs
    | _ =>
      match escapedClass? flags c with
      | some cls => some (.cls cls, cs)
      | none => if c.toNat < 128 && !c.isAlphanum then some (.literal c, cs) else none

/-! ### Classes -/

/-- The characters of a class and their variants in another case, if the flags say so. -/
def fold (flags : Flags) (cls : CharClass) : CharClass :=
  if flags.ignoreCase then if flags.unicode then .ignoreCase cls else .ignoreAsciiCase cls else cls

/-- The characters of a class and their variants, or all others. -/
def foldAndNegate (flags : Flags) (negated : Bool) (cls : CharClass) : CharClass :=
  if negated then .compl (fold flags cls) else fold flags cls

/-- The classes of ASCII characters that have a name. -/
def namedClass? (name : List Char) : Option CharClass :=
  let digits : CharClass := .range '0' '9'
  let lower : CharClass := .range 'a' 'z'
  let upper : CharClass := .range 'A' 'Z'
  let letter : CharClass := .union upper lower
  let graph : CharClass := .range '!' '~'
  match String.ofList name with
  | "alnum" => some (.union digits letter)
  | "alpha" => some letter
  | "ascii" => some (.range '\x00' '\x7f')
  | "blank" => some (.ofList ['\t', ' '])
  | "cntrl" => some (.union (.range '\x00' '\x1f') (.char '\x7f'))
  | "digit" => some digits
  | "graph" => some graph
  | "lower" => some lower
  | "print" => some (.range ' ' '~')
  | "punct" => some (.diff graph (.union digits letter))
  | "space" => some (.union (.range '\t' '\r') (.char ' '))
  | "upper" => some upper
  | "word" => some (.union (.union digits letter) (.char '_'))
  | "xdigit" => some (.union digits (.union (.range 'A' 'F') (.range 'a' 'f')))
  | _ => none

/-- Reads a class by its name, `:name:]` or `:^name:]`, after the opening bracket. -/
def readNamedClass? (flags : Flags) : List Char → Option (CharClass × List Char)
  | ':' :: cs =>
    let (negated, cs) := match cs with
      | '^' :: cs => (true, cs)
      | cs => (false, cs)
    let (name, rest) := cs.span (· != ':')
    match rest with
    | ':' :: ']' :: rest =>
      (namedClass? name).map fun cls ↦ (foldAndNegate flags negated cls, rest)
    | _ => none
  | _ => none

/-- The operations that join the parts of a class. -/
inductive ClassOp
  | inter
  | diff
  | symDiff

/-- A class and how deeply its source is nested. -/
structure NestedClass where
  cls : CharClass
  depth : Nat

/-- A class as far as it is read: what stands left of the last operation, with the operation, and
the items since. -/
structure PartialClass where
  left : Option (NestedClass × ClassOp)
  items : List NestedClass

namespace PartialClass

/-- Adds an item. -/
def add (part : PartialClass) (item : NestedClass) : PartialClass :=
  { part with items := item :: part.items }

/-- The union of the items since the last operation. -/
def union (part : PartialClass) : NestedClass :=
  match part.items with
  | [item] => item
  | items => ⟨(items.map NestedClass.cls).foldr .union .none,
      ((items.map NestedClass.depth).foldr max 0) + if items.isEmpty then 0 else 1⟩

/-- The class that has been read so far. Operations are done from left to right, on both their sides
with the variants that the flags ask for. -/
def close (part : PartialClass) (flags : Flags) : NestedClass :=
  match part.left with
  | none => part.union
  | some (left, op) =>
    let a := fold flags left.cls
    let b := fold flags part.union.cls
    ⟨match op with
      | .inter => .inter a b
      | .diff => .diff a b
      | .symDiff => .union (.diff a b) (.diff b a),
      max left.depth part.union.depth + 1⟩

/-- Begins the right side of an operation. -/
def startRight (part : PartialClass) (flags : Flags) (op : ClassOp) : PartialClass :=
  ⟨some (part.close flags, op), []⟩

end PartialClass

/-- Whether a class may stand where the flags are in force. Without the flag for all characters it
has characters of ASCII only. -/
def Flags.admits (flags : Flags) (cls : CharClass) : Bool := flags.unicode || cls.isAscii

/-- A single character in a class. Without the flag for all characters it is one of ASCII. -/
def classChar? (flags : Flags) (c : Char) : Option Char :=
  if flags.unicode || c.toNat < 128 then some c else none

/-- Reads a character or an escape inside a class. -/
def readClassItem (flags : Flags) : List Char → Option (Escape × List Char)
  | [] => none
  | '\\' :: cs => readEscape flags cs
  | c :: cs => some (.literal c, cs)

/-- The character of an escape that stands for one. -/
def Escape.char? : Escape → Option Char
  | .literal c | .byte c => some c
  | _ => none

/-- Reads an item of a class: a character, an escape for a class, or a range between two characters.
A hyphen before the end of the class, or before another hyphen, makes no range. -/
def readRange (flags : Flags) (cs : List Char) : Option (CharClass × List Char) := do
  let (first, rest) ← readClassItem flags cs
  let rest := flags.skip rest
  let next ← rest.head?
  let after := peek? flags (rest.drop 1)
  if next != '-' || after == some ']' || after == some '-' then
    match first with
    | .literal c | .byte c => return (.char (← classChar? flags c), rest)
    | .cls cls => return (cls, rest)
    | .look _ => none
  else
    let (last, rest) ← readClassItem flags (flags.skip (rest.drop 1))
    let low ← first.char? >>= classChar? flags
    let high ← last.char? >>= classChar? flags
    if low ≤ high then return (.range low high, rest) else none

mutual

/-- Reads a class after its opening bracket. Hyphens that come first stand for themselves, and so
does a closing bracket before anything else. -/
def readClass (flags : Flags) : Nat → List Char → Option (NestedClass × List Char)
  | 0, _ => none
  | budget + 1, cs =>
    let (negated, cs) := match flags.skip cs with
      | '^' :: cs => (true, flags.skip cs)
      | cs => (false, cs)
    let (hyphens, cs) := takeRun flags (· == '-') false false cs
    let start : PartialClass := ⟨none, hyphens.map fun c ↦ ⟨.char c, 0⟩⟩
    let result := match hyphens, cs with
      | [], ']' :: cs => readClassRest flags budget (start.add ⟨.char ']', 0⟩) cs
      | _, cs => readClassRest flags budget start cs
    result.bind fun (cls, rest) ↦
      let closed := foldAndNegate flags negated cls.cls
      if flags.admits closed then some (⟨closed, cls.depth + 1⟩, rest) else none

/-- Reads the items of a class up to its closing bracket. -/
def readClassRest (flags : Flags) :
    Nat → PartialClass → List Char → Option (NestedClass × List Char)
  | 0, _, _ => none
  | budget + 1, part, cs =>
    match flags.skip cs with
    | [] => none
    | ']' :: cs => some (part.close flags, cs)
    | '[' :: cs =>
      match readNamedClass? flags cs with
      | some (cls, cs) =>
        if flags.admits cls then readClassRest flags budget (part.add ⟨cls, 0⟩) cs else none
      | none =>
        match readClass flags budget cs with
        | some (cls, cs) => readClassRest flags budget (part.add cls) cs
        | none => none
    | '&' :: '&' :: cs => readClassRest flags budget (part.startRight flags .inter) cs
    | '-' :: '-' :: cs => readClassRest flags budget (part.startRight flags .diff) cs
    | '~' :: '~' :: cs => readClassRest flags budget (part.startRight flags .symDiff) cs
    | cs =>
      match readRange flags cs with
      | some (cls, cs) => readClassRest flags budget (part.add ⟨cls, 0⟩) cs
      | none => none

end

/-! ### Items -/

/-- The tree of a literal character. -/
def literal (flags : Flags) (c : Char) : RegexTree := .chars (fold flags (.char c)) 0

/-- The class of the point. -/
def point (flags : Flags) : CharClass :=
  .compl (if flags.dotAll then .none
    else if flags.carriageReturn then .ofList ['\n', '\r'] else .char '\n')

/-- The test of the anchor `^`. -/
def startAnchor (flags : Flags) : Look :=
  if flags.multiLine then if flags.carriageReturn then .anyLineStart else .lineStart
  else .textStart

/-- The test of the anchor `$`. -/
def endAnchor (flags : Flags) : Look :=
  if flags.multiLine then if flags.carriageReturn then .anyLineEnd else .lineEnd
  else .textEnd

/-- The tree of an escape. The flag for case concerns literals only. Without the flag for all
characters a byte stands for a character of ASCII. -/
def escapeTree? (flags : Flags) : Escape → Option RegexTree
  | .literal c => some (literal flags c)
  | .byte c => (classChar? flags c).map (literal flags)
  | .cls cls => some (.chars cls 0)
  | .look test => some (.look test)

/-- Reads a decimal number in the braces of a repetition; it has 32 bits. -/
def readCount (flags : Flags) (cs : List Char) : Option (Nat × List Char) :=
  let (digits, rest) := takeRun flags Char.isDigit false false (cs.dropWhile isBlankChar)
  if digits.isEmpty || decimalValue digits ≥ UInt32.size then none
  else some (decimalValue digits, rest.dropWhile isBlankChar)

/-- Reads the question mark that may follow a repetition and turns its preference round: whether
many rounds are preferred, and the rest. -/
def readPreference (flags : Flags) : List Char → Bool × List Char
  | '?' :: cs => (flags.preferFew, cs)
  | cs => (!flags.preferFew, cs)

/-- Reads the bounds of a repetition after the opening brace: `n`, `n,` or `n,m` with `n ≤ m`. -/
def readBounds (flags : Flags) (cs : List Char) : Option ((Nat × Option Nat) × List Char) := do
  let (low, cs) ← readCount flags (flags.skip cs)
  let (high, cs) ← match cs with
    | ',' :: cs =>
      match flags.skip cs with
      | '\x7d' :: cs => some (none, '\x7d' :: cs)
      | cs => (readCount flags cs).map fun (high, cs) ↦ (some high, cs)
    | cs => some (some low, cs)
  match cs with
  | '\x7d' :: cs =>
    if high.all (low ≤ ·) then return ((low, high), flags.skip cs) else none
  | _ => none

/-! ### Groups and branches -/

/-- Reads flags up to the colon or parenthesis that ends them: the flags, whether a colon ended
them, and the rest. No item may be repeated, and a hyphen is followed by a flag. -/
def readFlags (seen : List Char) (negated dangling : Bool) (flags : Flags) :
    List Char → Option (Flags × Bool × List Char)
  | [] => none
  | ':' :: cs => if dangling then none else some (flags, true, cs)
  | ')' :: cs => if dangling || seen.isEmpty then none else some (flags, false, cs)
  | c :: cs =>
    if seen.contains c then none
    else if c == '-' then readFlags (c :: seen) true true flags cs
    else
      match flags.set? c (!negated) with
      | some flags => readFlags (c :: seen) negated false flags cs
      | none => none

/-- Whether a character may begin the name of a group. -/
def beginsName (c : Char) : Bool := c == '_' || isNameLetter c

/-- Whether a character may stand in the name of a group after the first. -/
def continuesName (c : Char) : Bool :=
  c == '_' || c == '.' || c == '[' || c == ']' || isNameLetter c || isNameNumber c

/-- Reads the name of a group up to its closing angle bracket. No name may be used twice. -/
def readGroupName (used : List (List Char)) (cs : List Char) :
    Option (List Char × List Char) :=
  let (name, rest) := cs.span (· != '>')
  match rest, name with
  | '>' :: rest, c :: more =>
    if beginsName c && more.all continuesName && !used.contains name then some (name, rest)
    else none
  | _, _ => none

/-- What stands between the opening parenthesis of a group and its branches. -/
inductive GroupHead
  /-- A group that captures and has no name. -/
  | plain
  /-- A group that captures and has a name. -/
  | named (name : List Char)
  /-- A group that does not capture, for which flags are set. -/
  | flagged (flags : Flags)
  /-- No group: flags for the rest of the group around. -/
  | setFlags (flags : Flags)

/-- Reads the head of a group after its opening parenthesis. Tests of what precedes or follows are
refused. -/
def readGroupHead (flags : Flags) (used : List (List Char)) (cs : List Char) :
    Option (GroupHead × List Char) :=
  let named (cs : List Char) :=
    (readGroupName used cs).map fun (name, cs) ↦ (GroupHead.named name, cs)
  match flags.skip cs with
  | '?' :: '=' :: _ | '?' :: '!' :: _ | '?' :: '<' :: '=' :: _ | '?' :: '<' :: '!' :: _ => none
  | '?' :: 'P' :: '<' :: cs => named cs
  | '?' :: '<' :: cs => named cs
  | '?' :: cs =>
    (readFlags [] false false flags cs).map fun (flags, colon, cs) ↦
      (if colon then .flagged flags else .setFlags flags, cs)
  | cs => some (.plain, cs)

/-- A place of the source with all that is known there. -/
structure Place where
  /-- What is left of the source. -/
  rest : List Char
  /-- The flags in force. -/
  flags : Flags
  /-- The names of the groups so far. -/
  used : List (List Char)

/-- Repeats the last item of a branch, the items being listed from the last to the first, and reads
the preference that follows. Nothing can be repeated at the start of a branch and after flags. -/
def repeatLast? (flags : Flags) (items : List RegexTree) (low : Nat) (high : Option Nat)
    (cs : List Char) : Option (List RegexTree × List Char) :=
  match items with
  | [] | .flags :: _ => none
  | item :: items =>
    let (greedy, rest) := readPreference flags cs
    some (.repeated item low high greedy :: items, rest)

mutual

/-- Reads the branches of a choice, up to a closing parenthesis or the end. -/
def readChoice : Nat → Place → Option (List RegexTree × Place)
  | 0, _ => none
  | budget + 1, place =>
    match readBranch budget [] place with
    | none => none
    | some (items, place) =>
      let branch := RegexTree.ofItems items.reverse
      match place.rest with
      | '|' :: cs =>
        (readChoice budget { place with rest := cs }).map fun (branches, place) ↦
          (branch :: branches, place)
      | _ => some ([branch], place)

/-- Reads the items of a branch, up to a bar, a closing parenthesis or the end. The items are listed
from the last to the first. -/
def readBranch : Nat → List RegexTree → Place → Option (List RegexTree × Place)
  | 0, _, _ => none
  | budget + 1, items, place =>
    let flags := place.flags
    let go (items : List RegexTree) (cs : List Char) :=
      readBranch budget items { place with rest := cs }
    match flags.skip place.rest with
    | [] => some (items, { place with rest := [] })
    | '|' :: cs => some (items, { place with rest := '|' :: cs })
    | ')' :: cs => some (items, { place with rest := ')' :: cs })
    | '(' :: cs =>
      match readGroupHead flags place.used cs with
      | none => none
      | some (.setFlags flags, cs) =>
        readBranch budget (.flags :: items) { place with rest := cs, flags }
      | some (head, cs) =>
        let (captures, inner) : Bool × Place := match head with
          | .named name => (true, ⟨cs, flags, name :: place.used⟩)
          | .flagged flags => (false, ⟨cs, flags, place.used⟩)
          | _ => (true, ⟨cs, flags, place.used⟩)
        match readChoice budget inner with
        | some (branches, ⟨')' :: cs, _, used⟩) =>
          let body := match branches with
            | [branch] => branch
            | branches => .choice branches
          readBranch budget (.group captures body :: items) ⟨cs, flags, used⟩
        | _ => none
    | '[' :: cs =>
      match readClass flags budget cs with
      | some (cls, cs) => go (.chars cls.cls cls.depth :: items) cs
      | none => none
    | '*' :: cs => repeatLast? flags items 0 none cs >>= fun (items, cs) ↦ go items cs
    | '+' :: cs => repeatLast? flags items 1 none cs >>= fun (items, cs) ↦ go items cs
    | '?' :: cs => repeatLast? flags items 0 (some 1) cs >>= fun (items, cs) ↦ go items cs
    | '\x7b' :: cs =>
      match readBounds flags cs with
      | some ((low, high), cs) =>
        repeatLast? flags items low high cs >>= fun (items, cs) ↦ go items cs
      | none => none
    | '\\' :: cs =>
      match readEscape flags cs with
      | some (escape, cs) => escapeTree? flags escape >>= fun item ↦ go (item :: items) cs
      | none => none
    | '.' :: cs => if flags.unicode then go (.chars (point flags) 0 :: items) cs else none
    | '^' :: cs => go (.look (startAnchor flags) :: items) cs
    | '$' :: cs => go (.look (endAnchor flags) :: items) cs
    | c :: cs => go (literal flags c :: items) cs

end

/-- The tree of a source, or nothing if the source is not well-formed. -/
def treeOfSource? (source : String) : Option RegexTree :=
  let cs := source.toList
  match readChoice (3 * cs.length + 3) ⟨cs, .initial, []⟩ with
  | some ([branch], ⟨[], _, _⟩) => some branch
  | some (branches, ⟨[], _, _⟩) => some (.choice branches)
  | _ => none

/-- The expression of a source, or nothing if the source is not valid. -/
def ofSource? (source : String) : Option Regex := treeOfSource? source >>= RegexTree.regex?

end Regex

end JsonPattern
