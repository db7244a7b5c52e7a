import JsonPattern.Graph.Rendering
import JsonPattern.Proofs.Graph.Loops
import JsonPattern.Proofs.Graph.Unfolding

/-!
# The two passes make the outline

Both passes follow the references that the outline follows. The first one collects what is met
again in the outline, and fails where the outline does. The second one draws the numbered outline
and writes its text: the label of a node that is open is the number that the outline keeps for it,
whatever labels other nodes got in the meantime.

## Main definitions

* `Drawing.Writes` : a drawing yields what is planned and writes its text.
* `Drawing.LabelsAgree` : the labels of open nodes are those of the outline.

## Main results

* `Graph.collectHeads_eq` : the first pass collects the nodes that are met again.
* `Shape.writes_draw` : a body is drawn with its text.
* `Graph.HasOutline.writes_draw` : the second pass draws the numbered outline.
* `Graph.display_eq` : the two passes write the text of the numbered outline, or fail where it does.
-/

namespace JsonPattern

/-! ### The first pass -/

/-- A loop that collects from one item after the other. -/
theorem foldlM_collect {α β γ ε : Type} {find : α → Except ε β} {found : β → List γ}
    {step : List γ → α → ExceptT ε Option (List γ)}
    (h : ∀ start a, step start a = some ((find a).map fun b ↦ start ++ found b)) :
    (items : List α) → (start : List γ) → items.foldlM step start =
      (some ((items.mapM find).map fun bs ↦ start ++ bs.flatMap found) :
        Option (Except ε (List γ)))
  | [], start => by
    change (some (.ok start) : Option (Except ε (List γ))) = some (.ok (start ++ []))
    rw [List.append_nil]
  | a :: items, start => by
    rw [List.foldlM_cons, List.mapM_cons, h]
    cases hfind : find a with
    | error fault => rfl
    | ok b =>
      change List.foldlM step (start ++ found b) items = _
      rw [foldlM_collect h items]
      cases items.mapM find with
      | error fault => rfl
      | ok bs => simp [Except.map, bind, Except.bind, pure, Except.pure]

namespace Graph

variable {g : Graph} {rounds levels : Nat}

/-- The first pass collects the nodes that are met again in the outline. -/
theorem collectHeads_eq (hrounds : g.size < rounds) {around : List NodeId}
    (haround : g.Distinct around) (hlevels : g.size < levels + around.length)
    (heads : List NodeId) (id : NodeId) : g.collectHeads rounds levels around heads id =
      some ((g.unfold levels around id).map fun outline ↦ heads ++ outline.agains) := by
  induction levels generalizing around heads id with
  | zero =>
    have := haround.length_le
    omega
  | succ levels ih =>
    simp only [collectHeads, chaseFrom_eq hrounds]
    obtain ⟨fault, hfault⟩ | ⟨target, shape, hstands, hopen⟩ | ⟨target, shape, hstands, hnew⟩ :=
      g.resolve_cases around id
    · rw [unfold_of_resolve_error hfault, hfault]
      rfl
    · simp only [unfold_of_open hstands hopen, hstands.resolve_eq, if_pos hopen]
      rfl
    · have hnext := haround.cons hstands.index_lt hnew
      have hparts := foldlM_collect (fun heads id ↦ ih hnext (by simp; omega) heads id)
        shape.refs heads
      simp only [unfold_of_new hstands hnew, hstands.resolve_eq, if_neg hnew, hparts,
        ← shape.refs_mapM]
      cases shape.mapM (g.unfold levels (target :: around)) with
      | error fault => rfl
      | ok shape' =>
        simp only [Functor.map, Except.map, Outline.agains_node]

end Graph

/-! ### What is written -/

namespace Drawing

variable {α β : Type} {good : (NodeId → Option Nat) → Prop} {before : String}

/-- Where the labels are good and a text ends in `before`, a drawing does not fail: it yields what
is planned from the last number on, writes until the text ends in `after` instead, and leaves the
labels good. -/
def Writes (good : (NodeId → Option Nat) → Prop) (before : String) (x : Drawing α)
    (plan : StateM Nat α) (after : α → String) : Prop :=
  ∀ labels count text, good labels → ∃ labels', good labels' ∧
    x ⟨labels, count, text ++ before⟩ = some (.ok ((plan count).1,
      ⟨labels', (plan count).2, text ++ after (plan count).1⟩))

theorem bind_apply {x : Drawing α} {next : α → Drawing β} {pen pen' : Pen} {a : α}
    (h : x pen = some (.ok (a, pen'))) : (x >>= next) pen = next a pen' := by
  change Option.bind (x pen) _ = _
  rw [h]
  rfl

namespace Writes

theorem pure {a : α} {after : α → String} (h : after a = before) :
    Writes good before (pure a) (pure a) after := fun labels count text hgood ↦
  ⟨labels, hgood, by
    change some (Except.ok (a, (⟨labels, count, text ++ before⟩ : Pen))) =
      some (.ok (a, ⟨labels, count, text ++ after a⟩))
    rw [h]⟩

theorem bind {x : Drawing α} {plan : StateM Nat α} {between : α → String} {next : α → Drawing β}
    {next' : α → StateM Nat β} {after : β → String} (hx : Writes good before x plan between)
    (hnext : ∀ a, Writes good (between a) (next a) (next' a) after) :
    Writes good before (x >>= next) (plan >>= next') after := by
  intro labels count text hgood
  obtain ⟨labels', hgood', hx⟩ := hx labels count text hgood
  obtain ⟨labels'', hgood'', hnext⟩ := hnext (plan count).1 labels' (plan count).2 text hgood'
  exact ⟨labels'', hgood'', (bind_apply hx).trans hnext⟩

/-- Labels that are good in the one sense are good in the other one. -/
theorem of_good_iff {good' : (NodeId → Option Nat) → Prop} {x : Drawing α} {plan : StateM Nat α}
    {after : α → String} (h : Writes good' before x plan after)
    (hgood : ∀ labels, good' labels ↔ good labels) : Writes good before x plan after := by
  have : good' = good := funext fun labels ↦ propext (hgood labels)
  exact this ▸ h

/-- A text that is written first. -/
theorem write {x : Drawing α} {plan : StateM Nat α} {after : α → String} {first : String}
    (h : Writes good (before ++ first) x plan after) :
    Writes good before (Drawing.write first >>= fun _ ↦ x) plan after := by
  intro labels count text hgood
  obtain ⟨labels', hgood', hx⟩ := h labels count text hgood
  refine ⟨labels', hgood', .trans ?_ hx⟩
  change x ⟨labels, count, text ++ before ++ first⟩ = _
  rw [String.append_assoc]

/-- What was written before stays. -/
theorem append {x : Drawing α} {plan : StateM Nat α} {after : α → String}
    (h : Writes good "" x plan after) : Writes good before x plan fun a ↦ before ++ after a := by
  intro labels count text hgood
  obtain ⟨labels', hgood', hx⟩ := h labels count (text ++ before) hgood
  rw [String.append_empty] at hx
  refine ⟨labels', hgood', hx.trans ?_⟩
  rw [String.append_assoc]

end Writes

end Drawing

/-- Texts with separators between them, after a lead. -/
def separated (separator : String) : String → List String → String
  | _, [] => ""
  | lead, text :: texts => lead ++ text ++ separated separator separator texts

theorem intercalate_cons_eq (separator text : String) (texts : List String) :
    separator.intercalate (text :: texts) = text ++ separated separator separator texts := by
  induction texts generalizing text with
  | nil => simp [separated]
  | cons next texts ih =>
    rw [String.intercalate_cons_cons, ih, separated, String.append_assoc, String.append_assoc]

theorem separated_empty (separator : String) (texts : List String) :
    separated separator "" texts = separator.intercalate texts := by
  cases texts with
  | nil => simp [separated]
  | cons text texts => rw [intercalate_cons_eq, separated, String.empty_append]

/-! ### The text of a body -/

section Bodies

variable {ρ β : Type} {good : (NodeId → Option Nat) → Prop} {drawRef : ρ → Drawing β}
  {action : ρ → StateM Nat β} {text : β → String}

mutual

theorem Clause.writes_draw : (clause : Clause ρ) →
    (∀ r ∈ clause.refs, Drawing.Writes good "" (drawRef r) (action r) text) →
    Drawing.Writes good "" (clause.draw drawRef) (clause.mapM action) fun clause ↦
      (clause.map text).text
  | .named _ _, h =>
    .write ((h _ List.mem_cons_self).append.bind fun _ ↦ .pure (by simp [Clause.map, Clause.text]))
  | .optional group, h =>
    .write ((writes_drawGroup "" group h).append.bind fun _ ↦
      .write (.pure (by simp [Clause.map, Clause.text, separated_empty])))
  | .many _, h =>
    .write ((h _ List.mem_cons_self).append.bind fun _ ↦ .pure (by simp [Clause.map, Clause.text]))
  | .flatten _, h =>
    .write ((h _ List.mem_cons_self).append.bind fun _ ↦ .pure (by simp [Clause.map, Clause.text]))
  | .oneOf groups, h =>
    .write ((writes_drawGroups "" groups h).append.bind fun _ ↦
      .write (.pure (by simp [Clause.map, Clause.text, separated_empty])))

theorem writes_drawGroup : (lead : String) → (group : List (Clause ρ)) →
    (∀ r ∈ groupRefs group, Drawing.Writes good "" (drawRef r) (action r) text) →
    Drawing.Writes good "" (drawGroup drawRef lead group) (groupMapM action group) fun group ↦
      separated ", " lead (groupTexts (groupMap text group))
  | _, [], _ => .pure rfl
  | lead, clause :: group, h => by
    obtain ⟨hclause, hgroup⟩ := List.forall_mem_append.1 h
    exact .write ((clause.writes_draw hclause).append.bind fun _ ↦
      (writes_drawGroup ", " group hgroup).append.bind fun _ ↦
        .pure (by simp [groupMap, groupTexts, separated]))

theorem writes_drawGroups : (lead : String) → (groups : List (List (Clause ρ))) →
    (∀ r ∈ groupsRefs groups, Drawing.Writes good "" (drawRef r) (action r) text) →
    Drawing.Writes good "" (drawGroups drawRef lead groups) (groupsMapM action groups)
      fun groups ↦ separated " | " lead (groupsTexts (groupsMap text groups))
  | _, [], _ => .pure rfl
  | lead, group :: groups, h => by
    obtain ⟨hgroup, hgroups⟩ := List.forall_mem_append.1 h
    exact .write ((writes_drawGroup "" group hgroup).append.bind fun _ ↦
      .write ((writes_drawGroups " | " groups hgroups).append.bind fun _ ↦
        .pure (by simp [groupsMap, groupsTexts, separated, separated_empty, String.append_assoc])))

end

theorem writes_drawAlternatives : (lead : String) → (alternatives : List ρ) →
    (∀ r ∈ alternatives, Drawing.Writes good "" (drawRef r) (action r) text) →
    Drawing.Writes good "" (drawAlternatives drawRef lead alternatives)
      (alternatives.mapM action) fun alternatives ↦ separated " | " lead (alternatives.map text)
  | _, [], _ => .pure rfl
  | lead, alternative :: alternatives, h => by
    obtain ⟨hfirst, hrest⟩ := List.forall_mem_cons.1 h
    rw [List.mapM_cons]
    exact .write (hfirst.append.bind fun _ ↦
      (writes_drawAlternatives " | " alternatives hrest).append.bind fun _ ↦
        .pure (by simp [separated]))

/-- A body is drawn with its text, given that its references are. -/
theorem Shape.writes_draw (shape : Shape ρ)
    (h : ∀ r ∈ shape.refs, Drawing.Writes good "" (drawRef r) (action r) text) :
    Drawing.Writes good "" (shape.draw drawRef) (shape.mapM action) fun shape ↦
      (shape.map text).text := by
  cases shape with
  | arrayOf element =>
    exact .write ((h _ List.mem_cons_self).append.bind fun _ ↦
      .write (.pure (by simp [Shape.map, Shape.text])))
  | object clauses =>
    exact .write ((writes_drawGroup "" clauses h).append.bind fun _ ↦
      .write (.pure (by simp [Shape.map, Shape.text, groupText, separated_empty])))
  | oneOf alternatives =>
    exact .write ((writes_drawAlternatives "" alternatives h).append.bind fun _ ↦
      .write (.pure (by simp [Shape.map, Shape.text, separated_empty])))
  | literal | type | regex | anything => exact .write (.pure (by simp [Shape.map, Shape.text]))

end Bodies

/-! ### Labels -/

namespace Drawing

variable {heads around : List NodeId} {env : List (NodeId × Nat)}

/-- The labels of the collected nodes that are open are those that the outline keeps for them. -/
def LabelsAgree (heads around : List NodeId) (env : List (NodeId × Nat))
    (labels : NodeId → Option Nat) : Prop :=
  ∀ x ∈ around, x ∈ heads → labels x = env.lookup x

/-- A collected node that is entered gets a label that is kept for it. -/
theorem LabelsAgree.enter {labels : NodeId → Option Nat} (h : LabelsAgree heads around env labels)
    (id : NodeId) (number : Nat) : LabelsAgree heads (id :: around) ((id, number) :: env)
      fun other ↦ if other = id then some number else labels other := by
  intro x hx hhead
  by_cases hid : x = id
  · simp [hid]
  · simpa [hid, List.lookup_cons, beq_false_of_ne hid] using
      h x ((List.mem_cons.1 hx).resolve_left hid) hhead

/-- When a collected node is left, the labels of those around it are what they were. -/
theorem LabelsAgree.leave {labels : NodeId → Option Nat} {id : NodeId} {number : Nat}
    (h : LabelsAgree heads (id :: around) ((id, number) :: env) labels) (hnew : id ∉ around) :
    LabelsAgree heads around env labels := by
  intro x hx hhead
  have hne : x ≠ id := fun he ↦ hnew (he ▸ hx)
  rw [h x (List.mem_cons_of_mem _ hx) hhead, List.lookup_cons, beq_false_of_ne hne]

/-- Other nodes have no label to be kept. -/
theorem labelsAgree_cons_iff {labels : NodeId → Option Nat} {id : NodeId} (hid : id ∉ heads) :
    LabelsAgree heads (id :: around) env labels ↔ LabelsAgree heads around env labels := by
  refine ⟨fun h x hx ↦ h x (List.mem_cons_of_mem _ hx), fun h x hx hhead ↦ ?_⟩
  rcases List.mem_cons.1 hx with rfl | hx
  · exact absurd hhead hid
  · exact h x hx hhead

/-- A collected node is written after its label. Its label is kept inside the node, and what is
labelled there leaves the labels of the nodes around it as they were. -/
theorem writes_labelled {id : NodeId} (hnew : id ∉ around) {body : Drawing (Shape Outline.Numbered)}
    {plan : Nat → StateM Nat (Shape Outline.Numbered)}
    (hbody : ∀ number, Writes (LabelsAgree heads (id :: around) ((id, number) :: env)) ""
      body (plan number) fun shape ↦ (shape.map Outline.Numbered.text).text) :
    Writes (LabelsAgree heads around env) ""
      (do
        let number ← label id
        write ("#" ++ toString number ++ "=")
        return .node (id, some number) (← body))
      (do
        let number := (← get) + 1
        set number
        return .node (id, some number) (← plan number))
      Outline.Numbered.text := by
  intro labels count text hgood
  obtain ⟨labels', hgood', hdraw⟩ := hbody (count + 1) _ (count + 1)
    (text ++ ("#" ++ toString (count + 1) ++ "=")) (hgood.enter id (count + 1))
  refine ⟨labels', hgood'.leave hnew, ?_⟩
  rw [String.append_empty] at hdraw ⊢
  rw [bind_apply (x := label id) rfl, bind_apply rfl, bind_apply hdraw]
  let parts := plan (count + 1) (count + 1)
  have htext : text ++ ("#" ++ toString (count + 1) ++ "=") ++
      (parts.1.map Outline.Numbered.text).text =
        text ++ Outline.Numbered.text (.node (id, some (count + 1)) parts.1) := by
    rw [Outline.Numbered.text_node, String.append_assoc]
  exact congrArg (fun out ↦ some (Except.ok (Outline.node (id, some (count + 1)) parts.1,
    (⟨labels', parts.2, out⟩ : Pen)))) htext

end Drawing

/-! ### The second pass -/

namespace Graph

/-- Levels that are enough inside different nodes are one more than some levels. -/
theorem Distinct.exists_eq_succ {g : Graph} {around : List NodeId} (h : g.Distinct around)
    {levels : Nat} (hlevels : g.size < levels + around.length) : ∃ n, levels = n + 1 := by
  have := h.length_le
  exact ⟨levels - 1, by omega⟩

variable {g : Graph} {rounds levels : Nat} {heads around : List NodeId}
  {env : List (NodeId × Nat)}

/-- What the second pass does at an id that stands for a node. -/
theorem draw_of_standsFor (hrounds : g.size < rounds) {id target : NodeId} {shape : Shape NodeId}
    (h : g.StandsFor id target shape) : g.draw rounds heads (levels + 1) around id =
      if target ∈ around then do
        let number := (← Drawing.read (·.labels target)).getD 0
        Drawing.write ("#" ++ toString number)
        return .again (target, number)
      else if target ∈ heads then do
        let number ← Drawing.label target
        Drawing.write ("#" ++ toString number ++ "=")
        return .node (target, some number)
          (← shape.draw (g.draw rounds heads levels (target :: around)))
      else do
        return .node (target, none)
          (← shape.draw (g.draw rounds heads levels (target :: around))) := by
  funext pen
  have hlift : Drawing.lift (g.chaseFrom rounds id) pen = some (.ok ((target, shape), pen)) := by
    rw [chaseFrom_eq hrounds, h.resolve_eq]
    rfl
  exact Drawing.bind_apply hlift

/-- The second pass draws the numbered outline, if the nodes that are met again are known. -/
theorem HasOutline.writes_draw {id : NodeId} {outline : Outline NodeId NodeId}
    (h : g.HasOutline around id outline) (hrounds : g.size < rounds)
    (hheads : ∀ x ∈ outline.agains, x ∈ heads) (haround : g.Distinct around)
    (hlevels : g.size < levels + around.length) :
    Drawing.Writes (Drawing.LabelsAgree heads around env) "" (g.draw rounds heads levels around id)
      (Outline.numberFrom heads outline env) Outline.Numbered.text := by
  induction h generalizing levels env with
  | @again around id target shape h hopen =>
    obtain ⟨levels, rfl⟩ := haround.exists_eq_succ hlevels
    intro labels count text hgood
    have hlabel := hgood target hopen (hheads target (by simp))
    refine ⟨labels, hgood, ?_⟩
    rw [draw_of_standsFor hrounds h, if_pos hopen, String.append_empty]
    change some (Except.ok (Outline.again (target, (labels target).getD 0),
      (⟨labels, count, text ++ ("#" ++ toString ((labels target).getD 0))⟩ : Pen))) = _
    rw [hlabel]
    rfl
  | @node around id target shape h hnew part hparts ih =>
    obtain ⟨levels, rfl⟩ := haround.exists_eq_succ hlevels
    have hnext := haround.cons h.index_lt hnew
    have hbody (env : List (NodeId × Nat)) :
        Drawing.Writes (Drawing.LabelsAgree heads (target :: around) env) ""
          (shape.draw (g.draw rounds heads levels (target :: around)))
          (shape.mapM fun ref ↦ Outline.numberFrom heads (part ref) env)
          fun shape ↦ (shape.map Outline.Numbered.text).text :=
      shape.writes_draw fun ref href ↦ ih ref href
        (fun x hx ↦ hheads x (Outline.mem_agains_node href hx)) hnext (by simp; omega)
    rw [draw_of_standsFor hrounds h, if_neg hnew, Outline.numberFrom_node]
    simp only [Shape.mapM_map]
    by_cases hhead : target ∈ heads
    · rw [if_pos hhead, if_pos hhead]
      exact Drawing.writes_labelled hnew fun number ↦ hbody ((target, number) :: env)
    · rw [if_neg hhead, if_neg hhead]
      exact ((hbody env).of_good_iff fun _ ↦ Drawing.labelsAgree_cons_iff hhead).bind fun _ ↦
        .pure (Outline.Numbered.text_node ..)

/-! ### Both passes -/

theorem collectHeads_root_eq (hrounds : g.size < rounds) (root : NodeId) :
    g.collectHeads rounds rounds [] [] root = some ((g.outline root).map Outline.agains) := by
  rw [collectHeads_eq hrounds .nil (by simpa using hrounds), unfold_eq_outline hrounds]
  rfl

/-- With the nodes that the first pass collects, the second one draws the numbered outline and
writes its text. -/
theorem exists_draw_root_eq (hrounds : g.size < rounds) {root : NodeId}
    {outline : Outline NodeId NodeId} (h : g.outline root = .ok outline) :
    ∃ labels count, g.draw rounds outline.agains rounds [] root .fresh =
      some (.ok (outline.numbered, ⟨labels, count, outline.numbered.text⟩)) := by
  have hwrites : Drawing.Writes (Drawing.LabelsAgree outline.agains [] []) ""
      (g.draw rounds outline.agains rounds [] root)
      (Outline.numberFrom outline.agains outline []) Outline.Numbered.text :=
    (hasOutline_of_outline h).writes_draw hrounds (fun _ h ↦ h) .nil (by simpa using hrounds)
  obtain ⟨labels, -, hdraw⟩ := hwrites (fun _ ↦ none) 0 "" nofun
  rw [String.append_empty, String.empty_append] at hdraw
  exact ⟨labels, _, hdraw⟩

/-- The two passes draw the numbered outline and write its text, or fail where the outline does. -/
theorem display_eq (hrounds : g.size < rounds) (root : NodeId) : g.display rounds root =
    some ((g.outline root).map fun outline ↦ (outline.numbered, outline.numbered.text)) := by
  rw [display, collectHeads_root_eq hrounds]
  cases houtline : g.outline root with
  | error fault => rfl
  | ok outline =>
    obtain ⟨labels, count, hdraw⟩ := exists_draw_root_eq hrounds houtline
    simp only [Except.map, hdraw]

end Graph

end JsonPattern
