import JsonPattern.Proofs.Graph.Table
import JsonPattern.Proofs.Validator.Discriminated
import JsonPattern.Regex.Search

/-!
# Compiled objects and their choices

A compiled object whose clauses are discriminated accepts what its choices describe. Names decide
which optional groups are taken and which groups of alternations are picked, and no choice that
would do is missed.
-/

namespace JsonPattern

namespace Graph

variable {g : Graph} {E : Engine} {root : NodeId} {V : Validator}

/-- If the clauses of a compiled object are discriminated and no name is repeated in them, the
object has no failure if and only if, for some choice, its names are the names in force, and the
value of each has no failure where its clause says. -/
theorem object_accepts_iff_of_compile (h : g.compileWith E root = .ok V) {slot : Nat}
    {clauses : List (Clause Nat)} (hslot : V.checks[slot]? = some (.object clauses))
    (hclauses : groupIsDiscriminated clauses = true) (hnodup : (groupMemberNames clauses).Nodup)
    (path : Path) (members : Members) :
    V.table.failures slot path (.object members) = [] ↔ ∃ choice ∈ groupChoices clauses,
      (∀ name, name ∈ members.names ↔ name ∈ choice.names) ∧
      ∀ entry ∈ choice, ∃ part, members.lookup entry.1 = some part ∧
        V.table.failures entry.2 (path.member entry.1) part = [] := by
  obtain ⟨rank, hranked⟩ := exists_ranked_of_compile h
  exact hranked.failures_eq_nil_iff_of_discriminated (Set.mem_univ slot)
    (Validator.check_eq_of_getElem? hslot) hclauses hnodup

/-- A `host` and perhaps a `port`, or a `socket` or a `pipe`, and perhaps a `name`. -/
def endpointClauses {ρ : Type} (text number : ρ) : List (Clause ρ) :=
  [.oneOf [[.named "host" text, .optional [.named "port" number]],
      [.oneOf [[.named "socket" text], [.named "pipe" text]]]],
    .optional [.named "name" text]]

/-- Objects with these members. -/
def endpoint : Graph :=
  ⟨#[some (.body (.object (endpointClauses ⟨1⟩ ⟨2⟩))), some (.body (.type .string)),
    some (.body (.type .integer))]⟩

/-- A name and a host are accepted in this order, too. A host and a pipe are not accepted. -/
theorem object_accepts_endpoint : ∃ V, endpoint.compileWith Regex.engine ⟨0⟩ = .ok V ∧
    V.validate (.object [("name", .string "main"), ("host", .string "here")]) = [] ∧
    V.validate (.object [("host", .string "here"), ("pipe", .string "there")]) ≠ [] := by
  have hcompile : endpoint.compileWith Regex.engine ⟨0⟩ =
      .ok ⟨#[.object (endpointClauses 1 2), .kind .string, .kind .integer], 0⟩ := rfl
  have hslot : #[Check.object (endpointClauses 1 2), .kind .string, .kind .integer][0]? =
      some (.object (endpointClauses 1 2)) := rfl
  have haccepts := object_accepts_iff_of_compile hcompile hslot (by decide) (by decide) .root
  refine ⟨_, hcompile, ?_, ?_⟩
  · refine (haccepts [("name", .string "main"), ("host", .string "here")]).2
      ⟨[("host", 1), ("name", 1)], by decide, ?_, ?_⟩
    · intro name
      simp [Members.names, Choice.names, or_comm]
    · simp only [List.forall_mem_cons]
      exact ⟨⟨_, rfl, rfl⟩, ⟨_, rfl, rfl⟩, nofun⟩
  · intro hfailures
    obtain ⟨choice, hchoice, hnames, -⟩ :=
      (haccepts [("host", .string "here"), ("pipe", .string "there")]).1 hfailures
    have hapart : ∀ choice ∈ groupChoices (endpointClauses 1 2),
        "host" ∈ choice.names → "pipe" ∉ choice.names := by decide
    exact hapart choice hchoice ((hnames "host").1 (by decide)) ((hnames "pipe").1 (by decide))

end Graph

end JsonPattern
