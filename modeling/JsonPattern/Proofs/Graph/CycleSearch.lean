import JsonPattern.Graph.CycleSearch
import Mathlib.Data.List.Perm.Subperm
import Mathlib.Logic.Relation

/-!
# What the search for cycles finds

The nodes that a search closes are listed in the order of closing, the last one first, so that all
successors of a node stand behind it: such a list shows that no cycle runs through its nodes, and
the number of nodes behind a node is a rank that decreases along successors. The node that a search
stops at is on a cycle, because the open nodes lead to each other.

`Sweep` is the same search as a machine with an explicit stack, which holds the open nodes with the
successors that are still to be looked at.

## Main definitions

* `ClosingOrder` : all successors of a node stand behind it.
* `Sweep`, `SweepAll` : the search with an explicit stack, as a relation.
* `Searched`, `SearchedAll` : what the search yields, in both forms.

## Main results

* `ClosingOrder.rank_lt` : the number of nodes behind a node is a rank.
* `searched_searchFrom` : the search from a node that is not open.
* `searchAll_spec` : the search from several nodes.
-/

namespace JsonPattern

variable {α : Type} (successors : α → List α)

/-- A node leads to another in at least one step. -/
abbrev LeadsTo : α → α → Prop := Relation.TransGen fun v w ↦ w ∈ successors v

/-- A node leads to another in any number of steps. -/
abbrev Meets : α → α → Prop := Relation.ReflTransGen fun v w ↦ w ∈ successors v

/-- All successors of a node of the list stand behind it, and no node is repeated. -/
structure ClosingOrder (done : List α) : Prop where
  /-- No node is repeated. -/
  nodup : done.Nodup
  /-- Successors stand behind. -/
  behind : ∀ front v back, done = front ++ v :: back → ∀ w ∈ successors v, w ∈ back

/-- A search with an explicit stack. The open nodes stand on the stack, each with the successors
that it has not looked at. -/
inductive Sweep : List (α × List α) → List α → Except α (List α) → Prop
  | finished (done : List α) : Sweep [] done (.ok done)
  | close {v : α} {stack : List (α × List α)} {done : List α} {result : Except α (List α)}
      (rest : Sweep stack (v :: done) result) : Sweep ((v, []) :: stack) done result
  | cycle {v w : α} {ws : List α} {stack : List (α × List α)} {done : List α}
      (hopen : w ∈ v :: stack.map Prod.fst) : Sweep ((v, w :: ws) :: stack) done (.error w)
  | known {v w : α} {ws : List α} {stack : List (α × List α)} {done : List α}
      {result : Except α (List α)} (hopen : w ∉ v :: stack.map Prod.fst) (hdone : w ∈ done)
      (rest : Sweep ((v, ws) :: stack) done result) : Sweep ((v, w :: ws) :: stack) done result
  | push {v w : α} {ws : List α} {stack : List (α × List α)} {done : List α}
      {result : Except α (List α)} (hopen : w ∉ v :: stack.map Prod.fst) (hdone : w ∉ done)
      (rest : Sweep ((w, successors w) :: (v, ws) :: stack) done result) :
      Sweep ((v, w :: ws) :: stack) done result

/-- Searches with an explicit stack from each of the starting nodes in turn. -/
inductive SweepAll : List α → List α → Except α (List α) → Prop
  | finished (done : List α) : SweepAll [] done (.ok done)
  | skip {v : α} {starts done : List α} {result : Except α (List α)} (hdone : v ∈ done)
      (rest : SweepAll starts done result) : SweepAll (v :: starts) done result
  | cycle {v w : α} {starts done : List α} (hdone : v ∉ done)
      (hsweep : Sweep successors [(v, successors v)] done (.error w)) :
      SweepAll (v :: starts) done (.error w)
  | search {v : α} {starts done done' : List α} {result : Except α (List α)} (hdone : v ∉ done)
      (hsweep : Sweep successors [(v, successors v)] done (.ok done'))
      (rest : SweepAll starts done' result) : SweepAll (v :: starts) done result

variable {successors}

theorem ClosingOrder.nil : ClosingOrder successors [] := ⟨List.nodup_nil, by simp⟩

theorem ClosingOrder.cons {done : List α} (h : ClosingOrder successors done) {v : α}
    (hnew : v ∉ done) (hsucc : ∀ w ∈ successors v, w ∈ done) :
    ClosingOrder successors (v :: done) := by
  refine ⟨List.nodup_cons.2 ⟨hnew, h.nodup⟩, ?_⟩
  intro front x back he w hw
  cases front with
  | nil =>
    obtain ⟨rfl, rfl⟩ := List.cons.inj he
    exact hsucc w hw
  | cons y front => exact h.behind front x back (List.cons.inj he).2 w hw

section Search

variable [DecidableEq α]

/-- The number of nodes behind a node decreases along successors. -/
theorem ClosingOrder.rank_lt {done : List α} (h : ClosingOrder successors done) {v w : α}
    (hv : v ∈ done) (hw : w ∈ successors v) :
    w ∈ done ∧ done.reverse.idxOf w < done.reverse.idxOf v := by
  obtain ⟨front, back, rfl⟩ := List.append_of_mem hv
  have hmem := h.behind front v back rfl w hw
  have hv : v ∉ back := (List.nodup_cons.1 (List.nodup_append.1 h.nodup).2.1).1
  refine ⟨List.mem_append_right _ (List.mem_cons_of_mem _ hmem), ?_⟩
  simp only [List.reverse_append, List.reverse_cons, List.append_assoc]
  rw [List.idxOf_append_of_mem (List.mem_reverse.2 hmem),
    List.idxOf_append_of_notMem (by simpa using hv)]
  exact Nat.lt_add_right _ (by simpa using List.idxOf_lt_length_of_mem (List.mem_reverse.2 hmem))

variable (successors) in
/-- What the search of the successors `ws` of an open node yields, in both forms of the search. -/
def Scanned (around done : List α) (v : α) (ws : List α) : Except α (List α) → Prop
  | .error w => (LeadsTo successors w w ∧ Meets successors v w) ∧
      ∀ stack, stack.map Prod.fst = around → Sweep successors ((v, ws) :: stack) done (.error w)
  | .ok done' => ClosingOrder successors done' ∧ (∀ w ∈ ws, w ∈ done') ∧
      (∃ new, done' = new ++ done ∧ ∀ x ∈ new, x ∉ v :: around ∧ Meets successors v x) ∧
      ∀ stack result, stack.map Prod.fst = around →
        Sweep successors ((v, []) :: stack) done' result →
        Sweep successors ((v, ws) :: stack) done result

variable (successors) in
/-- What the search from a node yields, in both forms of the search. -/
def Searched (around done : List α) (v : α) : Except α (List α) → Prop
  | .error w => (LeadsTo successors w w ∧ Meets successors v w) ∧
      ∀ stack, stack.map Prod.fst = around →
        Sweep successors ((v, successors v) :: stack) done (.error w)
  | .ok done' => ClosingOrder successors done' ∧ v ∈ done' ∧
      (∃ new, done' = new ++ done ∧ ∀ x ∈ new, x ∉ around ∧ Meets successors v x) ∧
      ∀ stack result, stack.map Prod.fst = around → Sweep successors stack done' result →
        Sweep successors ((v, successors v) :: stack) done result

/-- The step of a search over the successors of a node. -/
def scanStep (search : List α → α → Except α (List α)) (opened : List α) (done : List α) (w : α) :
    Except α (List α) :=
  if w ∈ opened then .error w else if w ∈ done then .ok done else search done w

theorem scanned_foldlM {search : List α → α → Except α (List α)} {around done : List α} {v : α}
    {ws : List α} (hsub : ws ⊆ successors v) (hdone : ClosingOrder successors done)
    (hopen : ∀ x ∈ v :: around, x ∉ done) (hleads : ∀ x ∈ around, LeadsTo successors x v)
    (hsearch : ∀ done w, w ∈ successors v → ClosingOrder successors done →
      (∀ x ∈ w :: v :: around, x ∉ done) → w ∉ v :: around →
      Searched successors (v :: around) done w (search done w)) :
    Scanned successors around done v ws
      (ws.foldlM (scanStep search (v :: around)) done) := by
  induction ws generalizing done with
  | nil => exact ⟨hdone, by simp, ⟨[], rfl, by simp⟩, fun stack result _ h ↦ h⟩
  | cons w ws ih =>
    have hw : w ∈ successors v := hsub List.mem_cons_self
    have hws : ws ⊆ successors v := fun x hx ↦ hsub (List.mem_cons_of_mem _ hx)
    rw [List.foldlM_cons]
    by_cases hmem : w ∈ v :: around
    · simp only [scanStep, if_pos hmem]
      refine ⟨⟨?_, .single hw⟩, fun stack hstack ↦ .cycle (by rw [hstack]; exact hmem)⟩
      rcases List.mem_cons.1 hmem with rfl | hmem
      · exact .single hw
      · exact .tail (hleads w hmem) hw
    · by_cases hknown : w ∈ done
      · have hrest := ih hws hdone hopen
        simp only [scanStep, if_neg hmem, if_pos hknown]
        change Scanned successors around done v (w :: ws)
          (ws.foldlM (scanStep search (v :: around)) done)
        cases hfold : ws.foldlM (scanStep search (v :: around)) done with
        | error x =>
          rw [hfold] at hrest
          exact ⟨hrest.1, fun stack hstack ↦
            .known (by rw [hstack]; exact hmem) hknown (hrest.2 stack hstack)⟩
        | ok done' =>
          rw [hfold] at hrest
          obtain ⟨hclosing, hall, ⟨new, rfl, hnew⟩, hsweep⟩ := hrest
          exact ⟨hclosing, List.forall_mem_cons.2 ⟨List.mem_append_right _ hknown, hall⟩,
            ⟨new, rfl, hnew⟩, fun stack result hstack h ↦
              .known (by rw [hstack]; exact hmem) hknown (hsweep stack result hstack h)⟩
      · simp only [scanStep, if_neg hmem, if_neg hknown]
        have hfrom := hsearch done w hw hdone (List.forall_mem_cons.2 ⟨hknown, hopen⟩) hmem
        cases hsearched : search done w with
        | error x =>
          rw [hsearched] at hfrom
          exact ⟨⟨hfrom.1.1, .head hw hfrom.1.2⟩, fun stack hstack ↦
            .push (by rw [hstack]; exact hmem) hknown
              (hfrom.2 ((v, ws) :: stack) (by simp [hstack]))⟩
        | ok done₁ =>
          rw [hsearched] at hfrom
          obtain ⟨hclosing₁, hw₁, ⟨new₁, rfl, hnew₁⟩, hsweep₁⟩ := hfrom
          have hopen₁ : ∀ x ∈ v :: around, x ∉ new₁ ++ done := fun x hx hx' ↦
            (List.mem_append.1 hx').elim (fun h ↦ (hnew₁ x h).1 hx) (hopen x hx)
          have hrest := ih hws hclosing₁ hopen₁
          change Scanned successors around done v (w :: ws)
            (ws.foldlM (scanStep search (v :: around)) (new₁ ++ done))
          cases hfold : ws.foldlM (scanStep search (v :: around)) (new₁ ++ done) with
          | error x =>
            rw [hfold] at hrest
            exact ⟨hrest.1, fun stack hstack ↦ .push (by rw [hstack]; exact hmem) hknown
              (hsweep₁ ((v, ws) :: stack) _ (by simp [hstack]) (hrest.2 stack hstack))⟩
          | ok done' =>
            rw [hfold] at hrest
            obtain ⟨hclosing, hall, ⟨new, rfl, hnew⟩, hsweep⟩ := hrest
            refine ⟨hclosing, List.forall_mem_cons.2 ⟨List.mem_append_right _ hw₁, hall⟩,
              ⟨new ++ new₁, by simp, fun x hx ↦ ?_⟩, fun stack result hstack h ↦
                .push (by rw [hstack]; exact hmem) hknown (hsweep₁ ((v, ws) :: stack) _
                  (by simp [hstack]) (hsweep stack result hstack h))⟩
            exact (List.mem_append.1 hx).elim (hnew x) fun h ↦
              ⟨(hnew₁ x h).1, .head hw (hnew₁ x h).2⟩

/-- The search from a node that is not open. The nodes that can be met are those of a list, and the
open nodes among them make up for what is spent of the budget. -/
theorem searched_searchFrom {all : List α} (hall : ∀ v ∈ all, ∀ w ∈ successors v, w ∈ all)
    {budget : Nat} {around done : List α} {v : α} (hbudget : all.length ≤ budget + around.length)
    (hnodup : (v :: around).Nodup) (hsub : v :: around ⊆ all)
    (hdone : ClosingOrder successors done) (hopen : ∀ x ∈ v :: around, x ∉ done)
    (hleads : ∀ x ∈ around, LeadsTo successors x v) :
    Searched successors around done v
      (searchFrom successors budget around done v) := by
  induction budget generalizing around done v with
  | zero =>
    have := (hnodup.subperm hsub).length_le
    simp only [List.length_cons] at this
    omega
  | succ budget ih =>
    have hscan : Scanned successors around done v (successors v)
        ((successors v).foldlM
          (scanStep (searchFrom successors budget (v :: around)) (v :: around)) done) := by
      refine scanned_foldlM (List.Subset.refl _) hdone hopen hleads
        fun done w hw hdone hopen hnew ↦ ?_
      refine ih (by simp; omega) (List.nodup_cons.2 ⟨hnew, hnodup⟩)
        (List.cons_subset.2 ⟨hall v (hsub List.mem_cons_self) w hw, hsub⟩) hdone hopen
        (List.forall_mem_cons.2 ⟨.single hw, fun x hx ↦ .tail (hleads x hx) hw⟩)
    change Searched successors around done v (((successors v).foldlM
      (scanStep (searchFrom successors budget (v :: around)) (v :: around)) done) >>=
        fun done ↦ pure (v :: done))
    cases hfold : (successors v).foldlM
        (scanStep (searchFrom successors budget (v :: around)) (v :: around)) done with
    | error w =>
      rw [hfold] at hscan
      exact hscan
    | ok done' =>
      rw [hfold] at hscan
      obtain ⟨hclosing, hsucc, ⟨new, rfl, hnew⟩, hsweep⟩ := hscan
      have hv : v ∉ new ++ done := fun h ↦ (List.mem_append.1 h).elim
        (fun h ↦ (hnew v h).1 List.mem_cons_self) (hopen v List.mem_cons_self)
      refine ⟨hclosing.cons hv hsucc, List.mem_cons_self, ⟨v :: new, rfl, ?_⟩,
        fun stack result hstack h ↦ hsweep stack result hstack (.close h)⟩
      exact List.forall_mem_cons.2 ⟨⟨(List.nodup_cons.1 hnodup).1, .refl⟩, fun x hx ↦
        ⟨fun hx' ↦ (hnew x hx).1 (List.mem_cons_of_mem _ hx'), (hnew x hx).2⟩⟩

/-- The step of a search over the starting nodes. -/
def startStep (search : List α → α → Except α (List α)) (done : List α) (v : α) :
    Except α (List α) :=
  if v ∈ done then .ok done else search done v

variable (successors) in
/-- What the search from several nodes yields, if some nodes are closed already: the nodes met in
closing order, or a node on a cycle. -/
def SearchedAll (starts done : List α) : Except α (List α) → Prop
  | .error w => LeadsTo successors w w ∧ ∃ v ∈ starts, Meets successors v w
  | .ok done' => ClosingOrder successors done' ∧ starts ⊆ done' ∧ done ⊆ done' ∧
      ∀ x ∈ done', x ∈ done ∨ ∃ v ∈ starts, Meets successors v x

theorem searchedAll_foldlM {search : List α → α → Except α (List α)} {starts done : List α}
    (hdone : ClosingOrder successors done)
    (hsearch : ∀ done v, v ∈ starts → ClosingOrder successors done → v ∉ done →
      Searched successors [] done v (search done v)) :
    SweepAll successors starts done (starts.foldlM (startStep search) done) ∧
      SearchedAll successors starts done
        (starts.foldlM (startStep search) done) := by
  induction starts generalizing done with
  | nil =>
    exact ⟨.finished done, hdone, List.nil_subset _, List.Subset.refl _, fun x hx ↦ .inl hx⟩
  | cons v starts ih =>
    rw [List.foldlM_cons]
    by_cases hmem : v ∈ done
    · obtain ⟨hsweep, hsearched⟩ := ih hdone fun done w hw ↦
        hsearch done w (List.mem_cons_of_mem _ hw)
      simp only [startStep, if_pos hmem]
      change SweepAll successors (v :: starts) done (starts.foldlM (startStep search) done) ∧
        SearchedAll successors (v :: starts) done (starts.foldlM (startStep search) done)
      refine ⟨.skip hmem hsweep, ?_⟩
      cases hfold : starts.foldlM (startStep search) done with
      | error w =>
        rw [hfold] at hsearched
        obtain ⟨hcycle, x, hx, hmeets⟩ := hsearched
        exact ⟨hcycle, x, List.mem_cons_of_mem _ hx, hmeets⟩
      | ok done' =>
        rw [hfold] at hsearched
        obtain ⟨hclosing, hstarts, hsub, hmet⟩ := hsearched
        refine ⟨hclosing, List.cons_subset.2 ⟨hsub hmem, hstarts⟩, hsub, ?_⟩
        intro x hx
        exact (hmet x hx).imp_right fun ⟨w, hw, h⟩ ↦ ⟨w, List.mem_cons_of_mem _ hw, h⟩
    · have hfrom := hsearch done v List.mem_cons_self hdone hmem
      simp only [startStep, if_neg hmem]
      cases hcase : search done v with
      | error w =>
        rw [hcase] at hfrom
        exact ⟨.cycle hmem (hfrom.2 [] rfl), hfrom.1.1, v, List.mem_cons_self, hfrom.1.2⟩
      | ok done₁ =>
        rw [hcase] at hfrom
        obtain ⟨hclosing₁, hv, ⟨new, rfl, hnew⟩, hsweep₁⟩ := hfrom
        obtain ⟨hsweep, hsearched⟩ := ih hclosing₁ fun done w hw ↦
          hsearch done w (List.mem_cons_of_mem _ hw)
        change SweepAll successors (v :: starts) done
            (starts.foldlM (startStep search) (new ++ done)) ∧
          SearchedAll successors (v :: starts) done (starts.foldlM (startStep search) (new ++ done))
        refine ⟨.search hmem (hsweep₁ [] _ rfl (.finished _)) hsweep, ?_⟩
        cases hfold : starts.foldlM (startStep search) (new ++ done) with
        | error w =>
        rw [hfold] at hsearched
        obtain ⟨hcycle, x, hx, hmeets⟩ := hsearched
        exact ⟨hcycle, x, List.mem_cons_of_mem _ hx, hmeets⟩
        | ok done' =>
          rw [hfold] at hsearched
          obtain ⟨hclosing, hstarts, hsub, hmet⟩ := hsearched
          refine ⟨hclosing, List.cons_subset.2 ⟨hsub hv, hstarts⟩,
            fun x hx ↦ hsub (List.mem_append_right _ hx), fun x hx ↦ ?_⟩
          rcases hmet x hx with hx | ⟨w, hw, h⟩
          · exact (List.mem_append.1 hx).elim (fun h ↦ .inr ⟨v, List.mem_cons_self, (hnew x h).2⟩)
              .inl
          · exact .inr ⟨w, List.mem_cons_of_mem _ hw, h⟩

/-- The search from several nodes with a budget of the number of nodes that can be met. -/
theorem searchAll_spec {all : List α} (hall : ∀ v ∈ all, ∀ w ∈ successors v, w ∈ all)
    {budget : Nat} (hbudget : all.length ≤ budget) {starts : List α} (hstarts : starts ⊆ all) :
    SweepAll successors starts [] (searchAll successors budget starts) ∧
      SearchedAll successors starts [] (searchAll successors budget starts) :=
  searchedAll_foldlM ClosingOrder.nil
    fun done v hv hdone hnew ↦ searched_searchFrom hall (by simpa using hbudget) (by simp)
      (List.cons_subset.2 ⟨hstarts hv, List.nil_subset _⟩) hdone (by simpa using hnew) (by simp)

end Search

end JsonPattern
