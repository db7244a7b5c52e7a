import JsonPattern.Proofs.Graph.Numbering
import JsonPattern.Proofs.Graph.Rendering

/-!
# What a text depicts

The tree that is drawn of a pattern shows the pattern. Its labels count up, and a number at a place
where a node is met again is the label of the occurrence around the place. Where every such place
is taken for the occurrence whose label it shows, the tree becomes a diagram with cycles, which is
bisimilar to the graph from the root on. Nodes that are shared without being open are drawn anew at
each of their places.

## Main definitions

* `Diagram`, `Diagram.Bisimulation` : diagrams with cycles, and when they show the same.
* `Outline.Numbered.Means` : the occurrence that is meant at an address.
* `Graph.Prints`, `Graph.Depicts` : a numbered tree prints, or depicts, a pattern.

## Main results

* `Graph.Prints.bisimulation` : occurrences and the ids that they print show the same.
* `Graph.HasOutline.depicts` : what is drawn of an outline depicts its root.
* `Graph.depicts_of_display` : the text of the two passes is that of a tree that depicts the
  pattern.
-/

namespace JsonPattern

open Outline (Numbered)

/-! ### Diagrams -/

/-- A body without its references. -/
def Shape.form {ρ : Type} (shape : Shape ρ) : Shape Unit := shape.map fun _ ↦ ()

/-- A diagram of a pattern. -/
structure Diagram (σ : Type) where
  /-- What a node shows: its body without the references. -/
  shows : σ → Shape Unit → Prop
  /-- The node to which the reference at a position of a node leads. -/
  leads : σ → Nat → σ → Prop

namespace Diagram

variable {σ τ : Type}

/-- Related nodes of two diagrams show the same, and lead to related nodes at each position. -/
structure Bisimulation (D : Diagram σ) (E : Diagram τ) (R : σ → τ → Prop) : Prop where
  /-- Related nodes show the same. -/
  shows_iff : ∀ s t, R s t → ∀ form, D.shows s form ↔ E.shows t form
  /-- Each step of the first diagram is answered by the second one. -/
  forth : ∀ s t, R s t → ∀ i s', D.leads s i s' → ∃ t', E.leads t i t' ∧ R s' t'
  /-- Each step of the second diagram is answered by the first one. -/
  back : ∀ s t, R s t → ∀ i t', E.leads t i t' → ∃ s', D.leads s i s' ∧ R s' t'

/-- Two nodes are bisimilar if some bisimulation relates them. -/
def Bisimilar (D : Diagram σ) (E : Diagram τ) (s : σ) (t : τ) : Prop :=
  ∃ R, D.Bisimulation E R ∧ R s t

end Diagram

/-- The diagram of a graph. An id is taken for the node that it stands for. -/
def Graph.diagram (g : Graph) : Diagram NodeId where
  shows id form := ∃ target shape, g.StandsFor id target shape ∧ shape.form = form
  leads id i ref := ∃ target shape, g.StandsFor id target shape ∧ shape.refs[i]? = some ref

namespace Outline.Numbered

/-- The occurrence that is meant at an address: the one at the address, or the one whose label is
shown there. -/
inductive Means (tree : Numbered) : List Nat → List Nat → Prop
  | self {address : List Nat} {mark : NodeId × Option Nat} {shape : Shape Numbered}
      (h : tree.part address = some (.node mark shape)) : Means tree address address
  | label {address other : List Nat} {id : NodeId} {number : Nat}
      (h : tree.part address = some (.again (id, number))) (hother : tree.Bears other number) :
      Means tree address other

theorem Means.exists_part {tree : Numbered} {address other : List Nat}
    (h : tree.Means address other) : ∃ part, tree.part address = some part := by
  cases h with
  | self h | label h => exact ⟨_, h⟩

/-- The diagram of a numbered tree. Its nodes are the addresses of occurrences. -/
def diagram (tree : Numbered) : Diagram (List Nat) where
  shows address form := ∃ mark shape, tree.part address = some (.node mark shape) ∧
    shape.form = form
  leads address i next := ∃ mark shape, tree.part address = some (.node mark shape) ∧
    tree.Means (address ++ [i]) next

end Outline.Numbered

namespace Graph

variable (g : Graph)

/-- A numbered tree prints the pattern of an id inside occurrences of nodes, which are given with
their labels. Exactly where the node that the id stands for has an occurrence around it, the tree is
the label of this occurrence. -/
inductive Prints : List (NodeId × Option Nat) → NodeId → Numbered → Prop
  | again {around : List (NodeId × Option Nat)} {id target : NodeId} {shape : Shape NodeId}
      {number : Nat} (h : g.StandsFor id target shape) (hopen : (target, some number) ∈ around) :
      Prints around id (.again (target, number))
  | node {around : List (NodeId × Option Nat)} {id target : NodeId} {number : Option Nat}
      (parts : Shape (NodeId × Numbered)) (h : g.StandsFor id target (parts.map Prod.fst))
      (hnew : target ∉ around.map Prod.fst)
      (hparts : ∀ p ∈ parts.refs, Prints ((target, number) :: around) p.1 p.2) :
      Prints around id (.node (target, number) (parts.map Prod.snd))

/-- The occurrence at an address of a tree prints the pattern of an id. -/
def PrintedAt (tree : Numbered) (address : List Nat) (id : NodeId) : Prop :=
  ∃ around mark shape, tree.part address = some (.node mark shape) ∧
    Prints g around id (.node mark shape)

/-- A numbered tree depicts the pattern of a root. -/
structure Depicts (root : NodeId) (tree : Numbered) : Prop where
  /-- Nodes are printed in full, unless they are met again inside themselves. -/
  prints : g.Prints [] root tree
  /-- The labels count up from one in the order of appearance, and each is given once. -/
  labels_eq : tree.labels = List.range' 1 tree.labels.length
  /-- Where a node is met again, its number is not zero. It is the label of the one occurrence that
  has this label, which is an occurrence of the node, and around the place. -/
  again_labelled : ∀ address id number, tree.part address = some (.again (id, number)) →
    0 < number ∧ ∃ label shape, tree.part label = some (.node (id, some number) shape) ∧
      label <+: address ∧ ∀ other, tree.Bears other number → other = label
  /-- With labels replaced by the occurrences that have them, the tree and the graph cannot be
  told apart. -/
  bisimilar : tree.diagram.Bisimilar g.diagram [] root

variable {g} {around : List (NodeId × Option Nat)} {id target : NodeId} {tree : Numbered}

namespace Prints

/-- What is printed of a node with a body. -/
theorem of_relates {shape : Shape NodeId} {shape' : Shape Numbered} {number : Option Nat}
    (h : g.StandsFor id target shape) (hnew : target ∉ around.map Prod.fst)
    (hparts : shape.Relates (g.Prints ((target, number) :: around)) shape') :
    g.Prints around id (.node (target, number) shape') := by
  obtain ⟨parts, rfl, rfl, hparts⟩ := hparts
  exact .node parts h hnew hparts

/-- The occurrence of a node in print. -/
theorem exists_relates {number : Option Nat} {shape' : Shape Numbered}
    (h : g.Prints around id (.node (target, number) shape')) :
    ∃ shape, g.StandsFor id target shape ∧
      shape.Relates (g.Prints ((target, number) :: around)) shape' := by
  cases h with
  | node parts h hnew hparts => exact ⟨_, h, parts, rfl, rfl, hparts⟩

/-- What is printed for a reference is printed for any other one to the same node. -/
theorem of_standsFor {ref : NodeId} {number : Option Nat} {shape : Shape NodeId}
    {shape' : Shape Numbered} (h : g.Prints around ref (.node (target, number) shape'))
    (hstands : g.StandsFor id target shape) :
    g.Prints around id (.node (target, number) shape') := by
  cases h with
  | node parts h hnew hparts => exact .node parts (hstands.congr_shape h.get_target) hnew hparts

/-- Each part of what is printed is printed itself, inside more occurrences. -/
theorem exists_part (h : g.Prints around id tree) {address : List Nat} {part : Numbered}
    (hpart : tree.part address = some part) : ∃ around ref, g.Prints around ref part := by
  induction address generalizing around id tree with
  | nil => cases tree <;> cases hpart <;> exact ⟨_, _, h⟩
  | cons i address ih =>
    cases h with
    | again => cases hpart
    | node parts h hnew hparts =>
      obtain ⟨next, hnext, hpart⟩ := Option.bind_eq_some_iff.1 hpart
      rw [Shape.refs_map, List.getElem?_map] at hnext
      obtain ⟨p, hp, rfl⟩ := Option.map_eq_some_iff.1 hnext
      exact ih (hparts p (List.mem_of_getElem? hp)) hpart

/-- The number at a place where a node is met again is the label of an occurrence of the node, from
outside or on the way to the place. -/
theorem exists_label (h : g.Prints around id tree) {address : List Nat} {x : NodeId} {number : Nat}
    (hpart : tree.part address = some (.again (x, number))) :
    (x, some number) ∈ around ∨ ∃ label shape,
      tree.part label = some (.node (x, some number) shape) ∧ label <+: address := by
  induction address generalizing around id tree with
  | nil =>
    cases h with
    | again h hopen => cases hpart; exact .inl hopen
    | node => cases hpart
  | cons i address ih =>
    cases h with
    | again => cases hpart
    | @node _ _ target label parts h hnew hparts =>
      obtain ⟨next, hnext, hpart⟩ := Option.bind_eq_some_iff.1 hpart
      have hmap := hnext
      rw [Shape.refs_map, List.getElem?_map] at hmap
      obtain ⟨p, hp, rfl⟩ := Option.map_eq_some_iff.1 hmap
      rcases ih (hparts p (List.mem_of_getElem? hp)) hpart with hmem | ⟨inner, shape, hinner, hle⟩
      · rcases List.mem_cons.1 hmem with heq | hmem
        · cases heq
          exact .inr ⟨[], _, rfl, List.nil_prefix⟩
        · exact .inl hmem
      · exact .inr ⟨i :: inner, shape, Option.bind_eq_some_iff.2 ⟨_, hnext, hinner⟩,
          List.cons_prefix_cons.2 ⟨rfl, hle⟩⟩

end Prints

/-! ### Labels replaced by occurrences -/

namespace Prints

variable {root : NodeId}

/-- The number at a place where a node is met again is the label of one occurrence only. -/
theorem again_labelled (h : g.Prints [] root tree) (hnodup : tree.labels.Nodup)
    {address : List Nat} {number : Nat}
    (hpart : tree.part address = some (.again (id, number))) :
    ∃ label shape, tree.part label = some (.node (id, some number) shape) ∧ label <+: address ∧
      ∀ other, tree.Bears other number → other = label := by
  rcases h.exists_label hpart with hmem | ⟨label, shape, hlabel, hle⟩
  · exact absurd hmem List.not_mem_nil
  · exact ⟨label, shape, hlabel, hle, fun other hother ↦ hother.unique hnodup ⟨_, _, hlabel⟩⟩

/-- The occurrence that is meant where a reference is printed prints the pattern of the
reference. -/
theorem printedAt_of_means (h : g.Prints [] root tree) (hnodup : tree.labels.Nodup)
    {address next : List Nat} (hmeans : tree.Means address next) {part : Numbered} {ref : NodeId}
    (hpart : tree.part address = some part) (href : g.Prints around ref part) :
    g.PrintedAt tree next ref := by
  cases hmeans with
  | self hself =>
    cases hpart.symm.trans hself
    exact ⟨around, _, _, hself, href⟩
  | label hlabel hother =>
    cases hpart.symm.trans hlabel
    obtain ⟨label, shape, hoccurs, -, honly⟩ := h.again_labelled hnodup hlabel
    obtain rfl := honly _ hother
    obtain ⟨around', ref', hprints⟩ := h.exists_part hoccurs
    cases href with
    | again hstands => exact ⟨around', _, shape, hoccurs, hprints.of_standsFor hstands⟩

theorem exists_means (h : g.Prints [] root tree) (hnodup : tree.labels.Nodup)
    {address : List Nat} {part : Numbered} (hpart : tree.part address = some part) :
    ∃ next, tree.Means address next := by
  cases part with
  | node mark shape => exact ⟨address, .self hpart⟩
  | again mark =>
    obtain ⟨label, shape, hlabel, -⟩ := h.again_labelled hnodup hpart
    exact ⟨label, .label hpart ⟨_, _, hlabel⟩⟩

/-- Occurrences and the ids whose patterns they print show the same, and lead to such again. -/
theorem bisimulation (h : g.Prints [] root tree) (hnodup : tree.labels.Nodup) :
    tree.diagram.Bisimulation g.diagram (g.PrintedAt tree) := by
  constructor
  case shows_iff =>
    rintro address id ⟨around, ⟨target, number⟩, shape, hpart, hprints⟩ form
    obtain ⟨body, hstands, hrelates⟩ := hprints.exists_relates
    have hform : body.form = shape.form := hrelates.map_eq fun _ _ _ ↦ rfl
    constructor
    · rintro ⟨mark, shape', hpart', rfl⟩
      cases hpart.symm.trans hpart'
      exact ⟨target, body, hstands, hform⟩
    · rintro ⟨target', body', hstands', rfl⟩
      obtain ⟨rfl, rfl⟩ := hstands.unique hstands'
      exact ⟨_, shape, hpart, hform.symm⟩
  case forth =>
    rintro address id ⟨around, ⟨target, number⟩, shape, hpart, hprints⟩ i next
      ⟨mark, shape', hpart', hmeans⟩
    obtain ⟨body, hstands, hrelates⟩ := hprints.exists_relates
    obtain ⟨part, hnext⟩ := hmeans.exists_part
    have hat : shape.refs[i]? = some part := (Outline.part_concat hpart i).symm.trans hnext
    obtain ⟨ref, href, hprints'⟩ := hrelates.exists_left hat
    exact ⟨ref, ⟨target, body, hstands, href⟩, h.printedAt_of_means hnodup hmeans hnext hprints'⟩
  case back =>
    rintro address id ⟨around, ⟨target, number⟩, shape, hpart, hprints⟩ i ref
      ⟨target', body', hstands', href⟩
    obtain ⟨body, hstands, hrelates⟩ := hprints.exists_relates
    obtain ⟨rfl, rfl⟩ := hstands.unique hstands'
    obtain ⟨part, hat, hprints'⟩ := hrelates.exists_right href
    have hnext := (Outline.part_concat hpart i).trans hat
    obtain ⟨next, hmeans⟩ := h.exists_means hnodup hnext
    exact ⟨next, ⟨_, shape, hpart, hmeans⟩, h.printedAt_of_means hnodup hmeans hnext hprints'⟩

theorem printedAt_root (h : g.Prints [] root tree) : g.PrintedAt tree [] root := by
  cases tree with
  | again mark =>
    cases h with
    | again _ hopen => exact absurd hopen List.not_mem_nil
  | node mark shape => exact ⟨[], mark, shape, rfl, h⟩

end Prints

/-! ### What is drawn -/

/-- For each of the nodes `heads` that has an occurrence around the place, the label of this
occurrence is kept. -/
def LabelsKept (heads : List NodeId) (around : List (NodeId × Option Nat))
    (env : List (NodeId × Nat)) : Prop :=
  ∀ x ∈ around.map Prod.fst, x ∈ heads → ∃ number, env.lookup x = some number ∧
    (x, some number) ∈ around

namespace LabelsKept

variable {heads : List NodeId} {env : List (NodeId × Nat)}

theorem nil : LabelsKept heads [] [] := fun _ hx ↦ absurd hx List.not_mem_nil

theorem enter (h : LabelsKept heads around env) (id : NodeId) (number : Nat) :
    LabelsKept heads ((id, some number) :: around) ((id, number) :: env) := by
  intro x hx hhead
  by_cases hid : x = id
  · subst hid
    exact ⟨number, by simp, List.mem_cons_self⟩
  · obtain ⟨other, hlookup, hmem⟩ := h x ((List.mem_cons.1 hx).resolve_left hid) hhead
    refine ⟨other, ?_, List.mem_cons_of_mem _ hmem⟩
    rw [List.lookup_cons, beq_false_of_ne hid]
    exact hlookup

/-- A node that is not met again needs no label. -/
theorem pass (h : LabelsKept heads around env) (hid : id ∉ heads) :
    LabelsKept heads ((id, none) :: around) env := by
  intro x hx hhead
  have hne : x ≠ id := fun he ↦ hid (he ▸ hhead)
  obtain ⟨number, hlookup, hmem⟩ := h x ((List.mem_cons.1 hx).resolve_left hne) hhead
  exact ⟨number, hlookup, List.mem_cons_of_mem _ hmem⟩

end LabelsKept

/-- A numbered outline prints the pattern that the outline unfolds. -/
theorem HasOutline.prints_numberFrom {heads nodes : List NodeId} {outline : Outline NodeId NodeId}
    (h : g.HasOutline nodes id outline) (hheads : ∀ x ∈ outline.agains, x ∈ heads)
    (hnodes : around.map Prod.fst = nodes) {env : List (NodeId × Nat)}
    (hkept : LabelsKept heads around env) (count : Nat) :
    g.Prints around id (Outline.numberFrom heads outline env count).1 := by
  induction h generalizing around env count with
  | @again nodes id target shape h hopen =>
    obtain ⟨number, hlookup, hmem⟩ := hkept target (hnodes ▸ hopen) (hheads target (by simp))
    rw [Outline.numberFrom_again, hlookup]
    exact .again h hmem
  | @node nodes id target shape h hnew part hparts ih =>
    subst hnodes
    have hparts {label : Option Nat} {env : List (NodeId × Nat)}
        (hkept : LabelsKept heads ((target, label) :: around) env) (count : Nat) :=
      Shape.relates_mapM_state (fun ref href count' ↦ ih ref href
        (fun x hx ↦ hheads x (Outline.mem_agains_node href hx)) rfl hkept count') count
    rw [Outline.numberFrom_node]
    simp only [Shape.mapM_map]
    by_cases hhead : target ∈ heads
    · rw [if_pos hhead]
      exact .of_relates h hnew (hparts (hkept.enter target (count + 1)) (count + 1))
    · rw [if_neg hhead]
      exact .of_relates h hnew (hparts (hkept.pass hhead) count)

/-- What is drawn of an outline depicts its root. -/
theorem HasOutline.depicts {root : NodeId} {outline : Outline NodeId NodeId}
    (h : g.HasOutline [] root outline) : g.Depicts root outline.numbered := by
  have hprints : g.Prints [] root outline.numbered :=
    h.prints_numberFrom (fun _ h ↦ h) rfl .nil 0
  obtain ⟨n, hlabels, -⟩ := h.countsOn_numberFrom outline.agains [] 0
  have hlabels : outline.numbered.labels = List.range' 1 n := hlabels
  have hnodup : outline.numbered.labels.Nodup := hlabels ▸ List.nodup_range'
  refine ⟨hprints, ?_, ?_, _, hprints.bisimulation hnodup, hprints.printedAt_root⟩
  · rw [hlabels, List.length_range']
  · intro address id number hpart
    obtain ⟨label, shape, hlabel, hrest⟩ := hprints.again_labelled hnodup hpart
    have hmem := (show outline.numbered.Bears label number from ⟨_, _, hlabel⟩).mem_labels
    rw [hlabels, List.mem_range'_1] at hmem
    exact ⟨hmem.1, label, shape, hlabel, hrest⟩

/-- The text that the two passes write is that of the tree which they draw, and this tree depicts
the pattern: its labels count up, each place where a node is met again shows the label of the
occurrence of this node around it, and with labels replaced by occurrences it is bisimilar to the
graph. -/
theorem depicts_of_display {rounds : Nat} (hrounds : g.size < rounds) {root : NodeId}
    {text : String} (h : g.display rounds root = some (.ok (tree, text))) :
    g.text root = .ok text ∧ tree.text = text ∧ g.Depicts root tree := by
  rw [display_eq hrounds] at h
  cases houtline : g.outline root with
  | error fault =>
    rw [houtline] at h
    cases h
  | ok outline =>
    rw [houtline] at h
    cases h
    refine ⟨?_, rfl, (hasOutline_of_outline houtline).depicts⟩
    rw [Graph.text, houtline]
    rfl

/-- Two chains of numbered links, which are one and the same node. -/
def twoChains : Graph :=
  ⟨#[some (.body (.object [.named "left" ⟨1⟩, .named "right" ⟨2⟩])),
    some (.body (.object [.named "link" ⟨3⟩, .optional [.named "next" ⟨2⟩]])),
    some (.cyclic ⟨1⟩), some (.body (.type .integer))]⟩

/-- A chain whose first link has the label `number`. -/
def chainTree (number : Nat) : Numbered :=
  .node (⟨1⟩, some number) (.object [.named "link" (.node (⟨3⟩, none) (.type .integer)),
    .optional [.named "next" (.again (⟨1⟩, number))]])

/-- What is drawn of both chains. -/
def twoChainsTree : Numbered :=
  .node (⟨0⟩, none) (.object [.named "left" (chainTree 1), .named "right" (chainTree 2)])

/-- What is written of both chains. -/
def twoChainsText : String :=
  "\x7b\"left\": #1=\x7b\"link\": integer, optional \x7b\"next\": #1\x7d\x7d, " ++
    "\"right\": #2=\x7b\"link\": integer, optional \x7b\"next\": #2\x7d\x7d\x7d"

/-- The node that is shared is drawn twice, with another label each time. -/
theorem depicts_twoChains : twoChains.size < 5 ∧
    twoChains.display 5 ⟨0⟩ = some (.ok (twoChainsTree, twoChainsText)) ∧
    twoChainsTree.text = twoChainsText ∧ twoChains.Depicts ⟨0⟩ twoChainsTree := by
  have hsize : twoChains.size < 5 := by decide
  have htext : twoChainsTree.text = twoChainsText := by cbv
  have hdisplay : twoChains.display 5 ⟨0⟩ = some (.ok (twoChainsTree, twoChainsText)) := by
    rw [display_eq hsize, ← htext]
    rfl
  exact ⟨hsize, hdisplay, (depicts_of_display hsize hdisplay).2⟩

end Graph

end JsonPattern
