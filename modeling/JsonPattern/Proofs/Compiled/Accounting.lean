import JsonPattern.Proofs.Graph.Table
import JsonPattern.Proofs.Validator.Accounting
import JsonPattern.Regex.Search

/-!
# Accounts of a compiled validator

No member of an object is smuggled past a compiled validator, lost, or looked at twice.
-/

namespace JsonPattern

namespace Graph

variable {g : Graph} {E : Engine} {root : NodeId} {V : Validator}

/-- What a part of a compiled validator takes from members of different names is accounted for. What
is left keeps its order. Every failure stands at the path, or at or below a member that is taken
away. There are events that do not depend on how values are checked and give rise to the failures
for any such way; among them no member is handed to a check twice, and none that is not taken away
at all. A member that is taken away has a failure at or below it, or is accepted by a check that the
part offers for it. So every member of an object that an object pattern accepts is accepted by one
of its named clauses of that name or by one for all members. -/
theorem members_accounted_of_compile (h : g.compileWith E root = .ok V) (path : Path)
    (members : Members) (hnodup : members.names.Nodup) :
    (∀ part : Part Nat, ∃ rest failures, ∃ events : List (Event Nat),
      V.table.takePart path part members = ⟨rest, failures⟩ ∧ rest.Sublist members ∧
      (∀ failure ∈ failures, failure.path = path ∨
        ∃ name ∈ members.names, name ∉ rest.names ∧ failure.path.AtOrBelow (path.member name)) ∧
      (∀ deeper, V.table.takePartBy deeper path part members =
        ⟨rest, events.flatMap (Event.failures deeper path)⟩) ∧
      (events.filterMap Event.name?).Nodup ∧
      (∀ r name value, .handed r name value ∈ events →
        members.lookup name = some value ∧ name ∉ rest.names) ∧
      ∀ name ∈ members.names, name ∉ rest.names →
        (∃ failure ∈ failures, failure.path.AtOrBelow (path.member name)) ∨
          ∃ r value, members.lookup name = some value ∧ V.table.Offers part name r ∧
            V.table.failures r (path.member name) value = []) ∧
    ∀ (slot : Nat) (clauses : List (Clause Nat)), V.checks[slot]? = some (.object clauses) →
      V.table.failures slot path (.object members) = [] → ∀ name ∈ members.names,
        ∃ r value, members.lookup name = some value ∧
          V.table.Offers (.view (.group clauses)) name r ∧
          V.table.failures r (path.member name) value = [] := by
  obtain ⟨rank, hranked⟩ := exists_ranked_of_compile h
  constructor
  · intro part
    obtain ⟨rest, events, haccounts⟩ := hranked.hasAccounts path part members
    have htake := haccounts.take_eq V.table.failures
    have hlocated := hranked.located_of_accounts haccounts
    have haccepted (name : String) (hname : name ∈ members.names) (hrest : name ∉ rest.names) :=
      hranked.accepted_of_accounts haccounts hnodup hname hrest
    rw [Table.takePartBy_failures] at htake
    simp only [Table.takePartBy_failures, htake] at hlocated haccepted
    refine ⟨rest, _, events, htake, haccounts.sublist, hlocated, haccounts.take_eq,
      haccounts.nodup hnodup, fun r name value hevent ↦ ?_, haccepted⟩
    obtain ⟨hmember, hrest, -⟩ := haccounts.handed r name value hevent
    exact ⟨Members.lookup_of_mem hnodup hmember, hrest⟩
  · intro slot clauses hslot hfailures name hname
    exact hranked.accepted_of_failures_eq_nil (Validator.check_eq_of_getElem? hslot) hnodup
      hfailures hname

/-- Endpoints with a host, with a port or the name of a socket, and with labels, which are
strings. -/
def labelled : Graph :=
  ⟨#[some (.body (.type .string)), some (.body (.type .integer)),
    some (.body (.object [.named "host" ⟨0⟩,
      .oneOf [[.named "port" ⟨1⟩], [.named "socket" ⟨0⟩]], .many ⟨0⟩]))]⟩

/-- The label of an endpoint that is accepted is accepted by the clause for all members. -/
theorem members_accounted_labelled : ∃ V, labelled.compileWith Regex.engine ⟨2⟩ = .ok V ∧
    V.validate (.object [("host", .string "a"), ("port", .integer 1), ("zone", .string "b")]) = [] ∧
    ∃ r, V.table.Offers (.view (.group [.named "host" 1,
      .oneOf [[.named "port" 2], [.named "socket" 1]], .many 1])) "zone" r ∧
      V.table.failures r (Path.root.member "zone") (.string "b") = [] := by
  have hcompile : labelled.compileWith Regex.engine ⟨2⟩ = .ok ⟨#[.object [.named "host" 1,
      .oneOf [[.named "port" 2], [.named "socket" 1]], .many 1], .kind .string, .kind .integer],
      0⟩ := rfl
  refine ⟨_, hcompile, rfl, ?_⟩
  obtain ⟨-, haccepted⟩ := members_accounted_of_compile hcompile .root
    [("host", .string "a"), ("port", .integer 1), ("zone", .string "b")] (by decide)
  obtain ⟨r, value, hlookup, hoffers, hfailures⟩ := haccepted 0 _ rfl rfl "zone" (by decide)
  obtain rfl : Json.string "b" = value := Option.some.inj hlookup
  exact ⟨r, hoffers, hfailures⟩

end Graph

end JsonPattern
