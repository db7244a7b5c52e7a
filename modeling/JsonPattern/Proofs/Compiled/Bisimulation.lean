import JsonPattern.Proofs.Compiled.Sharing
import JsonPattern.Proofs.Graph.Bisimulation
import JsonPattern.Regex.Search

/-!
# Validators of bisimilar graphs

Whether parts of a pattern are shared does not show in what its validator says of a value. If two
graphs are bisimilar, and the leaves below related disjunctions repeat alike, then their validators
are alike, although they may have different numbers of checks.
-/

namespace JsonPattern

/-- Two validators are alike if they cannot be told apart by what they say of a value. -/
structure Validator.Alike (V V' : Validator) : Prop where
  /-- The same failures in the same order, from every path. -/
  validateAt_eq : ∀ path value, V.validateAt path value = V'.validateAt path value
  /-- The same shallow look. -/
  fits_eq : ∀ value, V.fits value = V'.fits value
  /-- The same labels. -/
  labels_eq : V.labels = V'.labels

namespace Graph

variable {g g' : Graph} {E : Engine} {root root' : NodeId} {R : NodeId → NodeId → Prop}
  {V V' : Validator}

/-- Bisimilar graphs are bisimilar as tables of checks, on the nodes that their roots lead to. -/
theorem Bisimulation.table (h : g.Bisimulation g' root root' R)
    (hrepeat : g.RepeatAlike g' E root root' R) (hcompile : g.compileWith E root = .ok V)
    (hcompile' : g'.compileWith E root' = .ok V') :
    (g.table E).Bisimulation (g'.table E)
      fun id id' ↦ id ∈ g.bodies root ∧ id' ∈ g'.bodies root' ∧ R id id' := by
  constructor
  case check =>
    rintro id id' ⟨hid, hid', hR⟩
    obtain ⟨shape, hget⟩ := hid.2
    obtain ⟨shape', hget'⟩ := hid'.2
    rw [table_check, table_check, shape_eq_of_get hget, shape_eq_of_get hget']
    refine (h.body id hid id' hid' hR shape shape' hget hget').of_refs.check E |>.map ?_
    rintro ref ref' ⟨href, href', hR⟩
    exact ⟨resolved_mem_bodies hcompile (hid.1.tail ⟨_, hget, href⟩),
      resolved_mem_bodies hcompile' (hid'.1.tail ⟨_, hget', href'⟩), hR⟩
  case repeats =>
    rintro id id' ⟨hid, hid', hR⟩
    exact hrepeat id hid id' hid' hR

/-- Related nodes mean the same. -/
theorem Bisimulation.agrees (h : g.Bisimulation g' root root' R)
    (hrepeat : g.RepeatAlike g' E root root' R) (hcompile : g.compileWith E root = .ok V)
    (hcompile' : g'.compileWith E root' = .ok V') {id id' : NodeId} (hid : id ∈ g.bodies root)
    (hid' : id' ∈ g'.bodies root') (hR : R id id') : (g.table E).Agrees id (g'.table E) id' := by
  obtain ⟨rank, hranked, -⟩ := exists_agrees_root hcompile
  obtain ⟨rank', hranked', -⟩ := exists_agrees_root hcompile'
  obtain ⟨P, hcovers, hcovers'⟩ := (h.table hrepeat hcompile hcompile').exists_covers hranked
    hranked' fun _ _ hrelated ↦ ⟨hrelated.1, hrelated.2.1⟩
  have hpair : (id, id') ∈ {p : NodeId × NodeId |
      p.1 ∈ g.bodies root ∧ p.2 ∈ g'.bodies root' ∧ R p.1 p.2} := ⟨hid, hid', hR⟩
  exact (hcovers.agrees hpair).trans (hcovers'.agrees hpair).symm

theorem Bisimulation.alike (h : g.Bisimulation g' root root' R)
    (hrepeat : g.RepeatAlike g' E root root' R) (hcompile : g.compileWith E root = .ok V)
    (hcompile' : g'.compileWith E root' = .ok V') : V.Alike V' := by
  have hnodes := h.agrees hrepeat hcompile hcompile' (resolved_mem_bodies hcompile .refl)
    (resolved_mem_bodies hcompile' .refl) h.roots
  obtain ⟨_, _, -, -, hroot⟩ := (hasSlot_root hcompile).exists_agrees
  obtain ⟨_, _, -, -, hroot'⟩ := (hasSlot_root hcompile').exists_agrees
  obtain ⟨hfailures, hfits, hlabels⟩ := (hroot.trans hnodes).trans hroot'.symm
  exact ⟨hfailures, hfits, hlabels⟩

/-- Sharing is immaterial. Validators of bisimilar graphs are alike if the leaves below related
disjunctions repeat alike; and so they are, on the same condition, if the one graph folds into the
other one, that is, if it is the other one with shared nodes copied and with cycles unrolled. -/
theorem sharing_immaterial_of_compile (h : g.compileWith E root = .ok V)
    (h' : g'.compileWith E root' = .ok V') :
    (∀ R, g.Bisimulation g' root root' R → g.RepeatAlike g' E root root' R → V.Alike V') ∧
    ∀ image, g.Folds g' image root → Relation.ReflTransGen g'.Links root' (image root) →
      g.RepeatAlike g' E root root' (fun id id' ↦ id' = image id) → V.Alike V' := by
  refine ⟨fun R hbisimilar hrepeat ↦ hbisimilar.alike hrepeat h h', ?_⟩
  intro image hfolds hroot hrepeat
  obtain ⟨order, rank, -, hcompiled, -⟩ := exists_compiled h
  refine (hfolds.bisimulation hroot ?_).alike hrepeat h h'
  intro id hid
  obtain ⟨target, -, shape, hstands⟩ := hcompiled.visited.standsFor_of_reaches hid
  exact ⟨target, shape, hstands⟩

/-- Where leaves repeat in one graph alone, sharing shows. An object pattern that is listed twice is
one leaf, and two copies of it are two leaves, of which an object fits both. -/
example :
    let shared : Graph := ⟨#[some (.body (.oneOf [⟨1⟩, ⟨1⟩])), some (.body (.object []))]⟩
    let copied : Graph := ⟨#[some (.body (.oneOf [⟨1⟩, ⟨2⟩])), some (.body (.object [])),
      some (.body (.object []))]⟩
    ∃ V V', shared.compileWith Regex.engine ⟨0⟩ = .ok V ∧
      copied.compileWith Regex.engine ⟨0⟩ = .ok V' ∧ V.validate (.object []) = [] ∧
      V'.validate (.object []) ≠ [] :=
  ⟨_, _, rfl, rfl, rfl, by decide⟩

/-- The nest of strings, in which an array holds what is a nest again, up to a string of its own. -/
def nestUnrolled : Graph :=
  ⟨#[some (.body (.oneOf [⟨1⟩, ⟨2⟩])), some (.body (.type .string)), some (.body (.arrayOf ⟨4⟩)),
    some (.cyclic ⟨0⟩), some (.body (.oneOf [⟨5⟩, ⟨6⟩])), some (.body (.type .string)),
    some (.body (.arrayOf ⟨3⟩))]⟩

/-- What the nodes of the inner nest are copies of. -/
def nestImage : NodeId → NodeId
  | ⟨4⟩ => ⟨0⟩
  | ⟨5⟩ => ⟨1⟩
  | ⟨6⟩ => ⟨2⟩
  | id => id

theorem get_nestUnrolled (n : Nat) :
    nestUnrolled.get ⟨n + 7⟩ = .error ⟨⟨n + 7⟩, .unknownPattern⟩ := by
  simp [get, nestUnrolled]

/-- The inner nest refers to where the outer one has a reference back to itself. -/
theorem folds_nestUnrolled : nestUnrolled.Folds nest nestImage ⟨0⟩ := by
  constructor
  case body =>
    rintro ⟨_ | _ | _ | _ | _ | _ | _ | n⟩ - shape hget
    · obtain rfl := Pattern.body.inj (Except.ok.inj hget)
      exact ⟨_, rfl, .refl (by simp [Shape.refs, nestImage, Relation.ReflTransGen.refl])⟩
    · obtain rfl := Pattern.body.inj (Except.ok.inj hget)
      exact ⟨_, rfl, .refl (by simp [Shape.refs])⟩
    · obtain rfl := Pattern.body.inj (Except.ok.inj hget)
      exact ⟨_, rfl, .arrayOf (⟨4⟩, ⟨3⟩), rfl, rfl, List.forall_mem_singleton.2 (.single rfl)⟩
    · cases hget
    · obtain rfl := Pattern.body.inj (Except.ok.inj hget)
      exact ⟨_, rfl, .oneOf [(⟨5⟩, ⟨1⟩), (⟨6⟩, ⟨2⟩)], rfl, rfl,
        List.forall_mem_cons.2 ⟨.refl, List.forall_mem_singleton.2 .refl⟩⟩
    · obtain rfl := Pattern.body.inj (Except.ok.inj hget)
      exact ⟨_, rfl, .refl (by simp [Shape.refs])⟩
    · obtain rfl := Pattern.body.inj (Except.ok.inj hget)
      exact ⟨_, rfl, .arrayOf (⟨3⟩, ⟨3⟩), rfl, rfl, List.forall_mem_singleton.2 .refl⟩
    · cases (get_nestUnrolled n).symm.trans hget
  case cyclic =>
    rintro ⟨_ | _ | _ | _ | _ | _ | _ | n⟩ - next hget
    case succ.succ.succ.zero =>
      obtain rfl := Pattern.cyclic.inj (Except.ok.inj hget)
      exact .single rfl
    case succ.succ.succ.succ.succ.succ.succ => cases (get_nestUnrolled n).symm.trans hget
    all_goals cases hget

/-- No leaf is met twice below either nest. -/
theorem repeatAlike_nestUnrolled :
    nestUnrolled.RepeatAlike nest Regex.engine ⟨0⟩ ⟨0⟩ fun id id' ↦ id' = nestImage id := by
  rintro ⟨_ | _ | _ | _ | _ | _ | _ | n⟩ ⟨-, shape, hget⟩ _ - rfl alternatives others hcheck hcheck'
  case zero =>
    have hleaves : (nestUnrolled.table Regex.engine).leaves alternatives = [⟨1⟩, ⟨2⟩] :=
      Check.oneOf.inj hcheck ▸ rfl
    have hleaves' : (nest.table Regex.engine).leaves others = [⟨1⟩, ⟨2⟩] :=
      Check.oneOf.inj hcheck' ▸ rfl
    rw [hleaves, hleaves']
    exact .of_nodup (by decide) (by decide) rfl
  case succ.succ.succ.succ.zero =>
    have hleaves : (nestUnrolled.table Regex.engine).leaves alternatives = [⟨5⟩, ⟨6⟩] :=
      Check.oneOf.inj hcheck ▸ rfl
    have hleaves' : (nest.table Regex.engine).leaves others = [⟨1⟩, ⟨2⟩] :=
      Check.oneOf.inj hcheck' ▸ rfl
    rw [hleaves, hleaves']
    exact .of_nodup (by decide) (by decide) rfl
  case succ.succ.succ.zero => cases hget
  case succ.succ.succ.succ.succ.succ.succ => cases (get_nestUnrolled n).symm.trans hget
  all_goals cases hcheck

/-- The copies are checks of their own, and make no difference. -/
theorem sharing_immaterial_nest : ∃ V V',
    nestUnrolled.compileWith Regex.engine ⟨0⟩ = .ok V ∧
      nest.compileWith Regex.engine ⟨0⟩ = .ok V' ∧ V.size = 6 ∧ V'.size = 3 ∧ V.Alike V' := by
  have hcompile : nestUnrolled.compileWith Regex.engine ⟨0⟩ = .ok ⟨#[.oneOf [1, 2],
    .kind .string, .arrayOf 3, .oneOf [4, 5], .kind .string, .arrayOf 0], 0⟩ := rfl
  have hcompile' : nest.compileWith Regex.engine ⟨0⟩ =
    .ok ⟨#[.oneOf [1, 2], .kind .string, .arrayOf 0], 0⟩ := rfl
  exact ⟨_, _, hcompile, hcompile', rfl, rfl, (sharing_immaterial_of_compile hcompile hcompile').2
    nestImage folds_nestUnrolled .refl repeatAlike_nestUnrolled⟩

end Graph

end JsonPattern
