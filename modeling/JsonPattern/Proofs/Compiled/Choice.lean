import JsonPattern.Proofs.Graph.Table
import JsonPattern.Proofs.Validator.Choice
import JsonPattern.Regex.Search

/-!
# Choice

In a compiled validator the choice between alternatives, made by names and one shallow look at a
value, can be trusted. An alternative that could take the members without a failure is opened by
the one name that decides, so a choice without a failure is a choice of the only such alternative.
-/

namespace JsonPattern

namespace Graph

variable {g : Graph} {E : Engine} {root : NodeId} {V : Validator}

/-- What a choice between views comes to in a compiled validator, by the number of views that could
take the members: those with a first name that is present which take the members without a failure.
If there is none, the choice fails. If there are several, its one failure is an ambiguity. If there
is one, either its one failure is an ambiguity, by whatever means views take members, or there is
no failure and exactly this view takes the members, by whatever means views take members. -/
theorem dispatchViews_exclusive_of_compile (h : g.compileWith E root = .ok V) (path : Path)
    (views : List (View Nat)) (members : Members) :
    (views.countP (V.table.admits path members) = 0 →
      (V.table.dispatchViews path views members).failures ≠ []) ∧
    (2 ≤ views.countP (V.table.admits path members) →
      ∃ failure, (V.table.dispatchViews path views members).failures = [failure] ∧
        failure.isAmbiguity = true) ∧
    (views.countP (V.table.admits path members) = 1 →
      (∃ failure, (V.table.dispatchViews path views members).failures = [failure] ∧
        failure.isAmbiguity = true ∧ ∀ take : View Nat → Members → Outcome,
          (V.table.dispatch path (Table.alternativesOf take views) members).failures =
            [failure]) ∨
      ∃ view, views.filter (V.table.admits path members) = [view] ∧
        (V.table.dispatchViews path views members).failures = [] ∧
        V.table.dispatchViews path views members =
          V.table.takeView V.table.failures path view members ∧
        ∀ take : View Nat → Members → Outcome,
          V.table.dispatch path (Table.alternativesOf take views) members = take view members) ∧
    ((V.table.dispatchViews path views members).failures = [] →
      views.countP (V.table.admits path members) = 1) := by
  obtain ⟨rank, hranked⟩ := exists_ranked_of_compile h
  have hviews : ∀ view ∈ views, ∀ r ∈ view.refs, r ∈ Set.univ := fun _ _ r _ ↦ Set.mem_univ r
  obtain ⟨hnone, hseveral, hone, hclean⟩ := hranked.dispatchViews_exclusive hviews
  refine ⟨hnone, hseveral, ?_, hclean⟩
  intro hcount
  rcases hone hcount with ⟨failure, hfailures, hambiguity⟩ | ⟨view, hfilter, hfailures, htake⟩
  · exact .inl ⟨failure, hfailures, hambiguity,
      hranked.dispatch_failures_eq hviews hcount hfailures⟩
  · exact .inr ⟨view, hfilter, hfailures, htake _, htake⟩

/-- Objects with a member `a` or a member `b`. -/
def either : Graph :=
  ⟨#[some (.body (.object [.oneOf [[.named "a" ⟨1⟩], [.named "b" ⟨1⟩]]])), some (.body .anything)]⟩

/-- One of the two groups could take a member `b`, and it does. -/
theorem dispatchViews_either : ∃ V, either.compileWith Regex.engine ⟨0⟩ = .ok V ∧
    [View.group [.named "a" 1], .group [.named "b" 1]].countP
      (V.table.admits .root [("b", .null), ("c", .null)]) = 1 := by
  have hcompile : either.compileWith Regex.engine ⟨0⟩ =
      .ok ⟨#[.object [.oneOf [[.named "a" 1], [.named "b" 1]]], .anything], 0⟩ := rfl
  exact ⟨_, hcompile, (dispatchViews_exclusive_of_compile hcompile .root
    [.group [.named "a" 1], .group [.named "b" 1]] [("b", .null), ("c", .null)]).2.2.2 rfl⟩

end Graph

end JsonPattern
