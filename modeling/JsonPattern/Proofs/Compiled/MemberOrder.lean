import JsonPattern.Proofs.Compiled.Regularity
import JsonPattern.Proofs.Compiled.Sharing
import JsonPattern.Proofs.Validator.Insensitivity
import JsonPattern.Regex.Search

/-!
# The order of members

A compiled validator does not look at the order in which the members of an object are written. It
shows in reports only: in the order of the names that are listed, and, where a clause for all
members is at work, in the order of the failures.
-/

namespace JsonPattern

/-! ### Comparisons of reorderings -/

/-- The failures of members in another order are those of the members in another order. -/
theorem Members.Reordered.failures_matched {members others : Members}
    (h : members.Reordered others) {f g : String → Json → List Failure}
    {alike : Failure → Failure → Prop}
    (hfg : ∀ name v w, v.DistinctNames ∧ v.Reordered w → Matched alike (f name v) (g name w)) :
    Matched alike (members.flatMap fun m ↦ f m.1 m.2) (others.flatMap fun n ↦ g n.1 n.2) := by
  obtain ⟨inOrder, hrelated, hperm⟩ := h.matched
  have hmatched : Matched (fun m n ↦ m.2.DistinctNames ∧ n.1 = m.1 ∧ m.2.Reordered n.2) members
      others := ⟨inOrder, (List.forall₂_and_left members inOrder).2 ⟨h.distinct, hrelated⟩, hperm⟩
  refine hmatched.flatMap ?_
  rintro m n ⟨hdistinct, hname, hvalue⟩
  rw [hname]
  exact hfg m.1 m.2 n.2 ⟨hdistinct, hvalue⟩

namespace Comparison

/-- Reorderings with the same failures in another order. -/
def inAnyOrder : Comparison :=
  reordering (Matched (Failure.Alike fun _ ↦ True)) .nil (fun _ _ ↦ .singleton)
    fun _ _ _ _ ↦ .append

/-- Reorderings with the same failures in the same order. -/
def inOrder : Comparison :=
  reordering (List.Forall₂ (Failure.Alike fun _ ↦ True)) .nil (fun _ _ h ↦ .cons h .nil)
    fun _ _ _ _ h h' ↦ List.rel_append h h'

theorem inAnyOrder_spreads : inAnyOrder.Spreads := fun _ _ _ _ h hfg ↦ h.failures_matched hfg

end Comparison

namespace Graph

variable {g : Graph} {E : Engine} {root : NodeId} {V : Validator}

/-- Behind every reference of a compiled validator stands the check of a body that the root leads
to, with slots for its references, or nothing is asked. -/
theorem check_cases_of_compile (h : g.compileWith E root = .ok V) (slot : Nat) :
    V.table.check slot = .anything ∨ ∃ id ∈ g.bodies root, ∃ shape check, ∃ number : NodeId → Nat,
      g.get id = .ok (.body shape) ∧ shape.Proper E ∧ shape.check? E = some check ∧
        check.map number = V.table.check slot := by
  obtain ⟨order, rank, -, hcompiled, rfl⟩ := exists_compiled h
  rcases Nat.lt_or_ge slot (g.checks E order).toArray.size with hlt | hge
  · have hmem := Validator.check_mem_of_lt
      (V := ⟨(g.checks E order).toArray, g.slot order root⟩) hlt
    obtain ⟨id, hid, shape, check, hget, hproper, hcheck, hmap⟩ :=
      hcompiled.exists_shape_of_mem (List.mem_toArray.1 hmem)
    exact .inr ⟨id, hcompiled.visited.mem_iff.1 hid, shape, check, _, hget, hproper, hcheck, hmap⟩
  · exact .inl (Validator.check_eq_anything_of_le hge)

/-- The literals of a compiled validator are scalars. -/
theorem isScalar_of_check_literal (h : g.compileWith E root = .ok V) {slot : Nat} {value : Json}
    (hcheck : V.table.check slot = .literal value) : value.isScalar = true := by
  rcases check_cases_of_compile h slot with hanything |
    ⟨id, -, shape, check, number, -, hproper, hshape, hmap⟩
  · rw [hanything] at hcheck
    cases hcheck
  · have hproper := (hproper.check hshape).1.map number
    rwa [hmap, hcheck] at hproper

/-- If no object that the root leads to has a clause for all members, no object of the validator
has one. -/
theorem groupHasMany_of_check_object (h : g.compileWith E root = .ok V)
    (hmany : ∀ id ∈ g.bodies root, ∀ clauses, g.get id = .ok (.body (.object clauses)) →
      groupHasMany clauses = false) {slot : Nat} {clauses : List (Clause Nat)}
    (hcheck : V.table.check slot = .object clauses) : groupHasMany clauses = false := by
  rcases check_cases_of_compile h slot with hanything |
    ⟨id, hid, shape, check, number, hget, -, hshape, hmap⟩
  · rw [hanything] at hcheck
    cases hcheck
  · rw [hcheck] at hmap
    cases check with
    | object clauses' =>
      obtain rfl := Check.object.inj hmap
      obtain rfl := Shape.eq_of_check?_eq_object hshape
      rw [groupHasMany_map]
      exact hmany id hid clauses' hget
    | kind | literal | regex | arrayOf | oneOf | anything => cases hmap

/-- The members of objects may stand in any order. If `w` is `v` with the members of objects, at any
depth, in another order, a compiled validator accepts both or neither, fits both or neither, and
finds both at fault for the same reasons, up to the order of the failures and of the names that they
list. If the root leads to no clause for all members, the failures come in the same order, too. -/
theorem memberOrder_immaterial_of_compile (h : g.compileWith E root = .ok V) {v w : Json}
    (hvw : v.Reordered w) (hdistinct : v.DistinctNames) :
    V.isValid v = V.isValid w ∧ V.fits v = V.fits w ∧
    (∀ path, Matched (Failure.Alike fun _ ↦ True) (V.validateAt path v) (V.validateAt path w)) ∧
    ((∀ id ∈ g.bodies root, ∀ clauses, g.get id = .ok (.body (.object clauses)) →
        groupHasMany clauses = false) →
      ∀ path, List.Forall₂ (Failure.Alike fun _ ↦ True) (V.validateAt path v)
        (V.validateAt path w)) := by
  have hself : V.table.Reordered V.table := ⟨rfl, fun slot ↦ (V.table.check slot).reordered_refl⟩
  have hliteral (C : Comparison) (slot : Nat) (value : Json)
      (hcheck : V.table.check slot = .literal value) :
      value.isScalar = true ∨ ∀ v w, C.value v w → v = w :=
    .inl (isScalar_of_check_literal h hcheck)
  have hsuits : V.table.Suits .inAnyOrder := ⟨hliteral _, .inl Comparison.inAnyOrder_spreads⟩
  have hmatched (path : Path) : Matched (Failure.Alike fun _ ↦ True) (V.validateAt path v)
      (V.validateAt path w) :=
    hself.failures_compared (C := .inAnyOrder) hsuits ⟨hdistinct, hvw⟩
  refine ⟨?_, hself.fits_eq hsuits ⟨hdistinct, hvw⟩ V.root, hmatched, fun hmany path ↦ ?_⟩
  · rw [Validator.isValid, Validator.isValid, Bool.eq_iff_iff, List.isEmpty_iff_length_eq_zero,
      List.isEmpty_iff_length_eq_zero]
    exact iff_of_eq (congrArg (· = 0) (hmatched .root).length_eq)
  · have hsuits : V.table.Suits .inOrder :=
      ⟨hliteral _, .inr fun _ _ ↦ groupHasMany_of_check_object h hmany⟩
    exact hself.failures_compared (C := .inOrder) hsuits ⟨hdistinct, hvw⟩

/-- A place with a name, at a point. -/
def location : Graph :=
  ⟨#[some (.body (.object [.named "at" ⟨1⟩, .named "name" ⟨3⟩])),
    some (.body (.object [.named "x" ⟨2⟩, .named "y" ⟨2⟩])), some (.body (.type .integer)),
    some (.body (.type .string))]⟩

/-- An integer point with a member too many, inside an object with one too many. -/
def harbour : Json :=
  .object [("kind", .null), ("at", .object [("x", .integer 1), ("z", .null), ("y", .integer 2),
    ("t", .null)]), ("name", .string "Bergen"), ("since", .null)]

/-- The same members, last first. -/
def harbourReversed : Json :=
  .object [("since", .null), ("name", .string "Bergen"), ("at", .object [("t", .null),
    ("y", .integer 2), ("z", .null), ("x", .integer 1)]), ("kind", .null)]

theorem harbour_reordered : harbour.Reordered harbourReversed :=
  ⟨_, _, rfl, ⟨_, _, rfl, rfl, _, _, rfl,
      ⟨_, _, rfl, ⟨_, _, rfl, rfl, _, _, rfl, rfl, _, _, rfl, rfl, _, _, rfl, rfl, rfl⟩,
        (List.reverse_perm _).symm⟩,
      _, _, rfl, rfl, _, _, rfl, rfl, rfl⟩,
    (List.reverse_perm _).symm⟩

/-- The names that are left over are listed in the order of the members, at the point and around
it. -/
theorem memberOrder_location : ∃ V, location.compileWith Regex.engine ⟨0⟩ = .ok V ∧
    (V.validate harbour).map Failure.found = ["names: z, t", "names: kind, since"] ∧
    (V.validate harbourReversed).map Failure.found = ["names: t, z", "names: since, kind"] ∧
    List.Forall₂ (Failure.Alike fun _ ↦ True) (V.validate harbour)
      (V.validate harbourReversed) := by
  have hcompile : location.compileWith Regex.engine ⟨0⟩ =
      .ok ⟨#[.object [.named "at" 1, .named "name" 3],
    .object [.named "x" 2, .named "y" 2], .kind .integer, .kind .string], 0⟩ := rfl
  have hdistinct : harbour.DistinctNames :=
    ⟨by decide, trivial, ⟨by decide, trivial, trivial, trivial, trivial, trivial⟩, trivial, trivial,
      trivial⟩
  obtain ⟨-, -, -, hinOrder⟩ :=
    memberOrder_immaterial_of_compile hcompile harbour_reordered hdistinct
  refine ⟨_, hcompile, rfl, rfl, hinOrder ?_ .root⟩
  rintro ⟨i⟩ - clauses hget
  rcases i with _ | _ | _ | _ | i
  · cases hget
    rfl
  · cases hget
    rfl
  · cases hget
  · cases hget
  · cases hget

end Graph

end JsonPattern
