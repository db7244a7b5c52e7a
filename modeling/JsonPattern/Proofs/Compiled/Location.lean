import JsonPattern.Proofs.Compiled.Termination
import JsonPattern.Proofs.Validator.Location
import JsonPattern.Regex.Search

/-!
# Where the failures of a compiled validator stand

The path of every failure leads to a place of the value, also where the validator refers back to
itself, and the failure tells what is found at this place.
-/

namespace JsonPattern

namespace Graph

variable {g : Graph} {E : Engine} {root : NodeId} {V : Validator}

/-- Failures point at real places. Of a value in which no object repeats a name, followed from the
root along the path of a failure, every step leads into a part, and the part at the end is what the
failure reports as found: its kind, the part written out, or of an object, that no members are left
or the different names of some of them. So the path is no longer than the value is deep, less the
depth of this part. -/
theorem failures_located_of_compile (h : g.compileWith E root = .ok V) {value : Json}
    (hdistinct : value.DistinctNames) :
    (∀ path, ∀ failure ∈ V.validateAt path value, ∃ steps part,
      failure.path.steps = path.steps ++ steps ∧ value.walk? steps = some part ∧
        steps.length + part.depth ≤ value.depth ∧ part.Shows failure.found) ∧
    ∀ failure ∈ V.validate value, ∃ part, value.walk? failure.path.steps = some part ∧
      failure.path.steps.length ≤ value.depth ∧ part.Shows failure.found := by
  obtain ⟨rank, hranked⟩ := exists_ranked_of_compile h
  have hsize (slot : Nat) : (V.table.check slot).size + 2 ≤ V.weight + 2 :=
    Nat.add_le_add_right (V.size_check_le_weight slot) 2
  constructor
  · intro path failure hfailure
    obtain ⟨part, ⟨steps, hpath, hwalk⟩, hshows⟩ :=
      hranked.exists_shows hsize hdistinct hfailure
    exact ⟨steps, part, hpath, hwalk, Json.length_add_depth_le_of_walk? hwalk, hshows⟩
  · intro failure hfailure
    obtain ⟨part, ⟨steps, hpath, hwalk⟩, hshows⟩ :=
      hranked.exists_shows hsize hdistinct hfailure
    obtain rfl : failure.path.steps = steps := hpath
    have hlength := Json.length_add_depth_le_of_walk? hwalk
    exact ⟨part, hwalk, by omega, hshows⟩

/-- Links with an integer, to links of the same kind. -/
def linked : Graph :=
  ⟨#[some (.body (.object [.named "item" ⟨1⟩, .optional [.named "next" ⟨2⟩]])),
    some (.body (.type .integer)), some (.cyclic ⟨0⟩)]⟩

/-- A second link with a string, and with a member that nothing takes: both failures point into
it. -/
theorem failures_located_linked : ∃ V, linked.compileWith Regex.engine ⟨0⟩ = .ok V ∧
    V.validate (.object [("item", .integer 1),
      ("next", .object [("item", .string "a"), ("rest", .null)])]) =
        [.unexpected ((Path.root.member "next").member "item") "string" "integer",
          .unexpected (Path.root.member "next") "names: rest" endOfMembers] ∧
    ∀ failure ∈ V.validate (.object [("item", .integer 1),
      ("next", .object [("item", .string "a"), ("rest", .null)])]), ∃ part,
        Json.walk? (.object [("item", .integer 1),
          ("next", .object [("item", .string "a"), ("rest", .null)])]) failure.path.steps =
            some part ∧ failure.path.steps.length ≤ 2 ∧ part.Shows failure.found := by
  have hcompile : linked.compileWith Regex.engine ⟨0⟩ =
      .ok ⟨#[.object [.named "item" 1, .optional [.named "next" 0]], .kind .integer], 0⟩ := rfl
  have hdistinct : Json.DistinctNames (.object [("item", .integer 1),
      ("next", .object [("item", .string "a"), ("rest", .null)])]) := by
    simp [Json.DistinctNames, Json.MembersDistinctNames]
  exact ⟨_, hcompile, rfl, (failures_located_of_compile hcompile hdistinct).2⟩

end Graph

end JsonPattern
