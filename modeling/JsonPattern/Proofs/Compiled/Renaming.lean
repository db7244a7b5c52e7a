import JsonPattern.Proofs.Graph.Renaming
import JsonPattern.Regex.Search

/-!
# Validators and texts of graphs under other names

Which ids the nodes have, what other nodes there are, and whether a node is referred to directly or
through cyclic references shows neither in the validator nor in the text.
-/

namespace JsonPattern

namespace Graph

variable {g g' : Graph} {E : Engine} {image : NodeId → NodeId} {root root' : NodeId}

/-- Names do not matter. If two graphs are the same from their roots on, up to the names of nodes
and cyclic references, then they compile to the same validator or not at all, and have the same text
or none. -/
theorem names_immaterial_of_renaming (h : g.Renaming g' image root root') :
    (∀ V, g.compileWith E root = .ok V ↔ g'.compileWith E root' = .ok V) ∧
      ∀ text, g.text root = .ok text ↔ g'.text root' = .ok text :=
  ⟨(h.mirror.compile ⟨.refl, h.roots⟩).ok_iff, (h.mirror.text ⟨.refl, h.roots⟩).ok_iff⟩

/-- A tree: an object with a number and a list of trees. -/
def tree : Graph :=
  ⟨#[some (.body (.object [.named "value" ⟨1⟩, .named "children" ⟨2⟩])),
    some (.body (.type .integer)), some (.body (.arrayOf ⟨3⟩)), some (.cyclic ⟨0⟩)]⟩

/-- The same with the nodes in another order, with a node that nothing leads to, and with a cyclic
reference to the number. -/
def shuffledTree : Graph :=
  ⟨#[some (.cyclic ⟨4⟩), some (.body (.arrayOf ⟨0⟩)), some (.body (.type .integer)),
    some (.body (.regex "(")), some (.body (.object [.named "value" ⟨5⟩, .named "children" ⟨1⟩])),
    some (.cyclic ⟨2⟩)]⟩

/-- Where the nodes of the tree have gone. -/
def treeImage : NodeId → NodeId
  | ⟨0⟩ => ⟨4⟩
  | ⟨1⟩ => ⟨2⟩
  | ⟨2⟩ => ⟨1⟩
  | ⟨3⟩ => ⟨0⟩
  | _ => ⟨6⟩

theorem tree_copies : tree.Copies shuffledTree treeImage ⟨0⟩ := by
  have hoff (n : Nat) : tree.get ⟨n + 4⟩ = .error ⟨⟨n + 4⟩, .unknownPattern⟩ := by
    simp [get, tree]
  constructor
  case injOn =>
    rintro ⟨i⟩ ⟨-, _, hi⟩ ⟨j⟩ ⟨-, _, hj⟩ he
    have hinj : ∀ i < 4, ∀ j < 4, treeImage ⟨i⟩ = treeImage ⟨j⟩ → i = j := by decide
    exact congrArg NodeId.mk (hinj i (index_lt_of_get hi) j (index_lt_of_get hj) he)
  case body =>
    rintro ⟨_ | _ | _ | _ | n⟩ - shape hget
    · obtain rfl := Pattern.body.inj (Except.ok.inj hget)
      exact ⟨_, rfl, .object [.named "value" (⟨1⟩, ⟨5⟩), .named "children" (⟨2⟩, ⟨1⟩)], rfl, rfl,
        List.forall_mem_cons.2 ⟨.inr rfl, List.forall_mem_singleton.2 (.inl rfl)⟩⟩
    · obtain rfl := Pattern.body.inj (Except.ok.inj hget)
      exact ⟨_, rfl, .type .integer, rfl, rfl, by simp [Shape.refs]⟩
    · obtain rfl := Pattern.body.inj (Except.ok.inj hget)
      exact ⟨_, rfl, .arrayOf (⟨3⟩, ⟨0⟩), rfl, rfl, List.forall_mem_singleton.2 (.inl rfl)⟩
    · cases hget
    · cases (hoff n).symm.trans hget
  case cyclic =>
    rintro ⟨_ | _ | _ | _ | n⟩ - next hget
    · cases hget
    · cases hget
    · cases hget
    · obtain rfl := Pattern.cyclic.inj (Except.ok.inj hget)
      exact ⟨⟨4⟩, rfl, .inl rfl⟩
    · cases (hoff n).symm.trans hget
  case fault =>
    rintro ⟨_ | _ | _ | _ | n⟩ - fault hget
    · cases hget
    · cases hget
    · cases hget
    · cases hget
    · exact ⟨_, rfl⟩

/-- Both graphs describe the same trees. -/
theorem names_immaterial_tree : ∃ V text,
    tree.compileWith Regex.engine ⟨0⟩ = .ok V ∧ shuffledTree.compileWith Regex.engine ⟨4⟩ = .ok V ∧
      tree.text ⟨0⟩ = .ok text ∧ shuffledTree.text ⟨4⟩ = .ok text := by
  have hcompile : tree.compileWith Regex.engine ⟨0⟩ =
      .ok ⟨#[.object [.named "value" 1, .named "children" 2],
    .kind .integer, .arrayOf 0], 0⟩ := rfl
  have htext : tree.text ⟨0⟩ = .ok _ := rfl
  obtain ⟨hvalidator, htexts⟩ := names_immaterial_of_renaming tree_copies.toRenaming
  exact ⟨_, _, hcompile, (hvalidator _).1 hcompile, htext, (htexts _).1 htext⟩

end Graph

end JsonPattern
