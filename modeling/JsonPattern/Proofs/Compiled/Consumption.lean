import JsonPattern.Proofs.Compiled.Termination
import JsonPattern.Proofs.Validator.Consumption
import JsonPattern.Regex.Search

/-!
# The member that leads, in a compiled validator

A compiled validator never offers the member by which it has chosen to what follows: it is used up,
also where the choice or the check of its value fails.
-/

namespace JsonPattern

namespace Graph

variable {g : Graph} {E : Engine} {root : NodeId} {V : Validator}

/-- If one name alone is present of those that may open one of several views, a choice between them
uses up the member of that name, whether a view is chosen, none is opened or several are. Otherwise
it takes nothing and meets one failure, where it stands. A clause or a view, too, uses up the member
of the one name that is present of those that may open it. -/
theorem leading_member_taken_of_compile (h : g.compileWith E root = .ok V) (path : Path)
    (members : Members) :
    (∀ views name, (V.table.presentNames views members).toList = [name] →
      name ∉ (V.table.dispatchViews path views members).rest.names) ∧
    (∀ views, (V.table.presentNames views members).toList.length ≠ 1 → ∃ failure,
      V.table.dispatchViews path views members = ⟨members, [failure]⟩ ∧ failure.path = path) ∧
    ∀ part name, (V.table.partPresent part members).toList = [name] →
      name ∉ (V.table.takePart path part members).rest.names := by
  obtain ⟨rank, hranked⟩ := exists_ranked_of_compile h
  have hsize (slot : Nat) : (V.table.check slot).size + 2 ≤ V.weight + 2 :=
    Nat.add_le_add_right (V.size_check_le_weight slot) 2
  refine ⟨?_, ?_, ?_⟩
  · intro views name hnames
    refine Table.notMem_rest_dispatchViews ?_ hnames
    exact fun view _ hleads ↦ hranked.notMem_rest_of_leads hsize path (.view view) members hleads
  · exact fun views hlength ↦ Table.dispatchViews_of_length_ne_one hlength
  · intro part name hnames
    exact hranked.notMem_rest_of_leads hsize path part members
      (LabelSet.toList_eq_singleton_iff.1 hnames)

/-- Parcels, with a note or without, and with a weight and its unit or with a number of pieces. -/
def parcel : Graph :=
  ⟨#[some (.body (.object [.optional [.named "note" ⟨1⟩],
      .oneOf [[.named "weight" ⟨2⟩, .named "unit" ⟨1⟩], [.flatten ⟨3⟩]]])),
    some (.body (.type .string)), some (.body (.type .integer)), some (.body (.oneOf [⟨4⟩])),
    some (.body (.object [.named "pieces" ⟨2⟩]))]⟩

/-- A weight is used up, though its unit is missing; beside a number of pieces it stays. -/
theorem leading_member_taken_parcel : ∃ V, parcel.compileWith Regex.engine ⟨0⟩ = .ok V ∧
    V.validate (.object [("weight", .integer 2), ("stamp", .null)]) =
      [.unexpected .root "names: stamp" (nameLabel "unit"),
        .unexpected .root "names: stamp" endOfMembers] ∧
    "weight" ∉ (V.table.dispatchViews .root [.group [.named "weight" 2, .named "unit" 1], .ref 3]
      [("weight", .integer 2), ("stamp", .null)]).rest.names ∧
    (∃ failure, V.table.dispatchViews .root [.group [.named "weight" 2, .named "unit" 1], .ref 3]
      [("weight", .integer 2), ("pieces", .integer 3)] =
        ⟨[("weight", .integer 2), ("pieces", .integer 3)], [failure]⟩ ∧ failure.path = .root) ∧
    "weight" ∉ (V.table.takePart .root (.view (.ref 0))
      [("weight", .integer 2), ("stamp", .null)]).rest.names := by
  have hcompile : parcel.compileWith Regex.engine ⟨0⟩ = .ok ⟨#[.object [.optional [.named "note" 1],
      .oneOf [[.named "weight" 2, .named "unit" 1], [.flatten 3]]], .kind .string, .kind .integer,
      .oneOf [4], .object [.named "pieces" 2]], 0⟩ := rfl
  have htaken := leading_member_taken_of_compile hcompile .root
    [("weight", .integer 2), ("stamp", .null)]
  have hboth := leading_member_taken_of_compile hcompile .root
    [("weight", .integer 2), ("pieces", .integer 3)]
  exact ⟨_, hcompile, rfl, htaken.1 _ _ rfl, hboth.2.1 _ (by decide), htaken.2.2 _ _ rfl⟩

end Graph

end JsonPattern
