import Std.Data.TreeMap

/-!
# The room of an automaton

The states of an automaton are numbered as they are made. `Room` keeps their number and the bytes
they take; no more than ten megabytes are given out.

States that would be equal are shared as far as a `Memo` remembers them. A memo has a fixed number
of places. A state is kept at the place that its hash gives and displaces what was there before, so
it may happen that a state is made a second time.
-/

namespace JsonPattern

/-- The states of an automaton as far as it is built. -/
structure Room where
  /-- The number of states. -/
  states : Nat
  /-- The bytes they take. -/
  bytes : Nat

/-- The bytes that a state takes. -/
def stateSize : Nat := 32

/-- The bytes of a state with `count` ways out that are all tried. -/
def forkSize (count : Nat) : Nat := stateSize + 4 * count

/-- The bytes of a state with `count` ways out, each for a range of bytes. -/
def switchSize (count : Nat) : Nat := stateSize + 8 * count

namespace Room

/-- The room before a state is made. -/
def empty : Room := ⟨0, 0⟩

/-- The bytes that are given out. -/
def limit : Nat := 10 * 1024 * 1024

/-- Makes states that take a number of bytes. -/
def grow (room : Room) (states bytes : Nat) : Room := ⟨room.states + states, room.bytes + bytes⟩

/-- The room, unless it takes more bytes than are given out. -/
def check? (room : Room) : Option Room := if room.bytes ≤ limit then some room else none

end Room

/-- The place of numbers in a memo with so many places, by their FNV-1a hash of 64 bits. -/
def memoPlace (places : Nat) (numbers : List Nat) : Nat :=
  (numbers.foldl (fun hash n ↦ (hash ^^^ n.toUInt64) * 0x100000001B3)
    (0xCBF29CE484222325 : UInt64)).toNat % places

/-- States that are made with the help of a memo. -/
structure Memo (α : Type) where
  /-- The states made so far. -/
  room : Room
  /-- What is remembered: at each place that is used, what a state does and its number. -/
  entries : Std.TreeMap Nat (α × Nat)

namespace Memo

variable {α : Type} [BEq α]

/-- A memo that remembers nothing. -/
def start (room : Room) : Memo α := ⟨room, ∅⟩

/-- The number of a state that does `a`, if it is remembered at its place. -/
def known? (memo : Memo α) (place : Nat) (a : α) : Option Nat :=
  match memo.entries[place]? with
  | some (b, number) => if a == b then some number else none
  | none => none

/-- Makes a state that does `a` and keeps it at its place. -/
def make (memo : Memo α) (place : Nat) (a : α) (bytes : Nat) : Memo α :=
  let ⟨room, entries⟩ := memo
  ⟨room.grow 1 bytes, entries.insert place (a, room.states)⟩

/-- The number of a state that does `a`. It is made unless it is remembered at its place. -/
def state (memo : Memo α) (place : Nat) (a : α) (bytes : Nat) : Nat × Memo α :=
  match memo.known? place a with
  | some number => (number, memo)
  | none => (memo.room.states, memo.make place a bytes)

end Memo

end JsonPattern
