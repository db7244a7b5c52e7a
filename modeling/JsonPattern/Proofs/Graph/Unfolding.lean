import JsonPattern.Proofs.Graph.Outline
import JsonPattern.Proofs.Pattern.Actions

/-!
# What has an outline

`Graph.HasOutline` says without a budget what it means that an outline is that of a pattern: its id
stands for a node, and the node is either open and cut off, or unfolded, with itself around what it
refers to. What is found with a budget that is large enough is an outline in this sense.
-/

namespace JsonPattern

namespace Outline

@[simp]
theorem agains_again {β ν : Type} (mark : β) : agains (.again mark : Outline β ν) = [mark] := rfl

/-- What is met again in a part is met again in the whole. -/
theorem mem_agains_node {ρ β ν : Type} {mark : ν} {shape : Shape ρ} {part : ρ → Outline β ν}
    {ref : ρ} (href : ref ∈ shape.refs) {x : β} (hx : x ∈ (part ref).agains) :
    x ∈ agains (.node mark (shape.map part)) := by
  rw [agains_node, Shape.refs_map]
  exact List.mem_flatMap.2 ⟨part ref, List.mem_map_of_mem href, hx⟩

theorem numberFrom_again (heads : List NodeId) (id : NodeId) (around : List (NodeId × Nat)) :
    numberFrom heads (.again id) around = return .again (id, (around.lookup id).getD 0) := rfl

end Outline

namespace Graph

variable (g : Graph)

/-- The pattern of an id, inside the nodes around it, has an outline. -/
inductive HasOutline : List NodeId → NodeId → Outline NodeId NodeId → Prop
  /-- A node around the place is met again. -/
  | again {around : List NodeId} {id target : NodeId} {shape : Shape NodeId}
      (h : g.StandsFor id target shape) (hopen : target ∈ around) :
      HasOutline around id (.again target)
  /-- Any other node is unfolded. -/
  | node {around : List NodeId} {id target : NodeId} {shape : Shape NodeId}
      (h : g.StandsFor id target shape) (hnew : target ∉ around)
      (part : NodeId → Outline NodeId NodeId)
      (hparts : ∀ ref ∈ shape.refs, HasOutline (target :: around) ref (part ref)) :
      HasOutline around id (.node target (shape.map part))

variable {g} {around : List NodeId} {id target : NodeId} {shape : Shape NodeId} {fault : Fault}
  {budget : Nat} {outline : Outline NodeId NodeId}

/-! ### One step -/

theorem unfold_of_resolve_error (h : g.resolve id = .error fault) :
    g.unfold (budget + 1) around id = .error fault := by
  rw [unfold, h]
  rfl

theorem unfold_of_open (h : g.StandsFor id target shape) (hopen : target ∈ around) :
    g.unfold (budget + 1) around id = .ok (.again target) := by
  simp only [unfold, h.resolve_eq, bind, Except.bind, if_pos hopen]
  rfl

theorem unfold_of_new (h : g.StandsFor id target shape) (hnew : target ∉ around) :
    g.unfold (budget + 1) around id =
      (shape.mapM (g.unfold budget (target :: around))).map (.node target) := by
  simp only [unfold, h.resolve_eq, bind, Except.bind, if_neg hnew]
  cases shape.mapM (g.unfold budget (target :: around)) <;> rfl

/-- What an id stands for, and whether it is open. -/
theorem resolve_cases (g : Graph) (around : List NodeId) (id : NodeId) :
    (∃ fault, g.resolve id = .error fault) ∨
    (∃ target shape, g.StandsFor id target shape ∧ target ∈ around) ∨
    ∃ target shape, g.StandsFor id target shape ∧ target ∉ around := by
  rcases hresolve : g.resolve id with fault | ⟨target, shape⟩
  · exact .inl ⟨fault, rfl⟩
  · have h := resolve_eq_ok_iff.1 hresolve
    by_cases hopen : target ∈ around
    · exact .inr (.inl ⟨target, shape, h, hopen⟩)
    · exact .inr (.inr ⟨target, shape, h, hopen⟩)

/-! ### Outlines that are found -/

theorem hasOutline_of_unfold (haround : g.Distinct around)
    (hbudget : g.size < budget + around.length) (h : g.unfold budget around id = .ok outline) :
    g.HasOutline around id outline := by
  induction budget generalizing around id outline with
  | zero =>
    have := haround.length_le
    omega
  | succ budget ih =>
    obtain ⟨fault, hfault⟩ | ⟨target, shape, hstands, hopen⟩ | ⟨target, shape, hstands, hnew⟩ :=
      g.resolve_cases around id
    · rw [unfold_of_resolve_error hfault] at h
      cases h
    · rw [unfold_of_open hstands hopen] at h
      cases h
      exact .again hstands hopen
    · rw [unfold_of_new hstands hnew] at h
      cases hparts : shape.mapM (g.unfold budget (target :: around)) with
      | error fault =>
        rw [hparts] at h
        cases h
      | ok shape' =>
        rw [hparts] at h
        cases h
        have : Nonempty (Outline NodeId NodeId) := ⟨.again target⟩
        obtain ⟨part, rfl, hpart⟩ := Shape.exists_result_of_mapM hparts
        have hnext := haround.cons hstands.index_lt hnew
        exact .node hstands hnew part fun ref href ↦ ih hnext (by simp; omega) (hpart ref href)

theorem hasOutline_of_outline (h : g.outline id = .ok outline) : g.HasOutline [] id outline :=
  hasOutline_of_unfold .nil (by simp) h

namespace HasOutline

/-- The id stands for a node. -/
theorem exists_standsFor (h : g.HasOutline around id outline) :
    ∃ target shape, g.StandsFor id target shape := by
  cases h with
  | again h | node h => exact ⟨_, _, h⟩

/-- The outline of a reference is that of the node that it names. -/
theorem of_link (h : g.HasOutline around id outline) {next : NodeId} (hlink : g.Links id next) :
    g.HasOutline around next outline := by
  cases h with
  | again h hopen => exact .again (h.of_link hlink) hopen
  | node h hnew part hparts => exact .node (h.of_link hlink) hnew part hparts

/-- Where a node with a body is not open, what its body refers to has an outline inside it. -/
theorem exists_part (h : g.HasOutline around id outline) (hget : g.get id = .ok (.body shape))
    (hnew : id ∉ around) {ref : NodeId} (href : ref ∈ shape.refs) :
    ∃ part, g.HasOutline (id :: around) ref part := by
  have hself : g.StandsFor id id shape := .body hget
  cases h with
  | again h hopen => exact absurd ((hself.unique h).1 ▸ hopen) hnew
  | node h _ part hparts =>
    obtain ⟨rfl, rfl⟩ := hself.unique h
    exact ⟨part ref, hparts ref href⟩

end HasOutline

end Graph

end JsonPattern
