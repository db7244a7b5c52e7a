import JsonPattern.Proofs.Validator.Calls

/-!
# Clauses that stand for each other

Two lists of clauses can stand for each other if they take members in the same way and are opened
by the same members. Both carries over to any optional group and any alternation around them. The
clauses before and after them in a list do not matter for how the list takes members; the clauses
after them matter for what opens it, since a clause that is not optional closes a list to what
follows.
-/

namespace JsonPattern

variable {ρ : Type}

theorem leading_append (xs ys : List (Clause ρ)) :
    leading (xs ++ ys) =
      if xs.all Clause.isOptional then leading xs ++ leading ys else leading xs := by
  induction xs with
  | nil => rfl
  | cons clause xs ih =>
    rw [List.cons_append, leading, leading, ih, List.all_cons]
    cases clause.isOptional with
    | false => rfl
    | true => cases xs.all Clause.isOptional <;> rfl

theorem Outcome.andThen_assoc (first : Outcome) (second third : Members → Outcome) :
    (first.andThen second).andThen third =
      first.andThen fun members ↦ (second members).andThen third := by
  simp only [Outcome.andThen, List.append_assoc]

namespace Table

variable [DecidableEq ρ] {T : Table ρ}

/-! ### Lists in line -/

section Append

variable {deeper : PartCheck ρ} {path : Path} {members : Members} {name : String} {value : Json}

omit [DecidableEq ρ] in
theorem firstNames_append (xs ys : List (Clause ρ)) :
    T.firstNames (.group (xs ++ ys)) =
      if xs.all Clause.isOptional then T.firstNames (.group xs) ∪ T.firstNames (.group ys)
      else T.firstNames (.group xs) := by
  simp only [firstNames, groupFirstNames_eq_unions, leading_append]
  split
  · rw [List.map_append, LabelSet.unions_append]
  · rfl

omit [DecidableEq ρ] in
theorem firstChecks_append (xs ys : List (Clause ρ)) :
    T.firstChecks name (.group (xs ++ ys)) =
      if xs.all Clause.isOptional then
        T.firstChecks name (.group xs) ++ T.firstChecks name (.group ys)
      else T.firstChecks name (.group xs) := by
  simp only [firstChecks, groupFirstChecks_eq_flatten, leading_append]
  split
  · rw [List.map_append, List.flatten_append]
  · rfl

theorem opens_append (xs ys : List (Clause ρ)) :
    T.opens name value (.group (xs ++ ys)) =
      if xs.all Clause.isOptional then
        T.opens name value (.group xs) || T.opens name value (.group ys)
      else T.opens name value (.group xs) := by
  simp only [opens, groupOpens_eq_any, leading_append]
  split
  · rw [List.any_append]
  · rfl

theorem takeView_append (xs ys : List (Clause ρ)) :
    T.takeView deeper path (.group (xs ++ ys)) members =
      (T.takeView deeper path (.group xs) members).andThen
        (T.takeView deeper path (.group ys)) := by
  have hcons (clause : Clause ρ) (zs : List (Clause ρ)) (members : Members) :
      T.takeView deeper path (.group (clause :: zs)) members =
        (T.takeClause deeper (T.takeTargetWithin deeper path T.hops) path clause members).andThen
          (T.takeView deeper path (.group zs)) := rfl
  induction xs generalizing members with
  | nil => rfl
  | cons clause xs ih =>
    rw [List.cons_append, hcons, hcons, Outcome.andThen_assoc]
    exact congrArg _ (funext fun _ ↦ ih)

end Append

/-! ### Lists opened by the same members -/

namespace SameOpenings

theorem flatten (target : ρ) : T.SameOpenings (.ref target) T (.group [.flatten target]) :=
  ⟨rfl, fun _ ↦ rfl, fun _ _ ↦ Bool.or_false _⟩

theorem optional (clauses : List (Clause ρ)) :
    T.SameOpenings (.group clauses) T (.group [.optional clauses]) :=
  ⟨LabelSet.union_empty _, fun _ ↦ List.append_nil _, fun _ _ ↦ by
    simp only [opens, groupOpens, Clause.opens, Bool.and_false, Bool.or_false]⟩

variable {xs ys : List (Clause ρ)}

theorem append_left (zs : List (Clause ρ)) (h : T.SameOpenings (.group xs) T (.group ys)) :
    T.SameOpenings (.group (zs ++ xs)) T (.group (zs ++ ys)) where
  firstNames_eq := by rw [firstNames_append, firstNames_append, h.firstNames_eq]
  firstChecks_eq name := by rw [firstChecks_append, firstChecks_append, h.firstChecks_eq]
  opens_eq name value := by rw [opens_append, opens_append, h.opens_eq]

/-- A list with a clause that is not optional is closed to what follows. -/
theorem append_of_closed {zs : List (Clause ρ)} (hclosed : zs.all Clause.isOptional = false)
    (xs ys : List (Clause ρ)) : T.SameOpenings (.group (zs ++ xs)) T (.group (zs ++ ys)) where
  firstNames_eq := by
    rw [firstNames_append, firstNames_append, hclosed, if_neg Bool.false_ne_true,
      if_neg Bool.false_ne_true]
  firstChecks_eq name := by
    rw [firstChecks_append, firstChecks_append, hclosed, if_neg Bool.false_ne_true,
      if_neg Bool.false_ne_true]
  opens_eq name value := by
    rw [opens_append, opens_append, hclosed, if_neg Bool.false_ne_true, if_neg Bool.false_ne_true]

theorem append_right (zs : List (Clause ρ)) (h : T.SameOpenings (.group xs) T (.group ys))
    (hall : ys.all Clause.isOptional = xs.all Clause.isOptional) :
    T.SameOpenings (.group (xs ++ zs)) T (.group (ys ++ zs)) where
  firstNames_eq := by rw [firstNames_append, firstNames_append, hall, h.firstNames_eq]
  firstChecks_eq name := by rw [firstChecks_append, firstChecks_append, hall, h.firstChecks_eq]
  opens_eq name value := by rw [opens_append, opens_append, hall, h.opens_eq]

/-- An alternation is opened by the same members if one of its groups is replaced by one that is. -/
theorem oneOf (earlier later : List (List (Clause ρ)))
    (h : T.SameOpenings (.group xs) T (.group ys)) :
    T.SameOpenings (.group [.oneOf (earlier ++ xs :: later)]) T
      (.group [.oneOf (earlier ++ ys :: later)]) where
  firstNames_eq := by
    have hnames : groupFirstNames _ ys = groupFirstNames _ xs := h.firstNames_eq
    change groupsFirstNames _ _ = groupsFirstNames _ _
    simp only [groupsFirstNames_eq_unions, List.map_append, List.map_cons, hnames]
  firstChecks_eq name := by
    have hchecks : groupFirstChecks _ name ys = groupFirstChecks _ name xs := h.firstChecks_eq name
    change groupsFirstChecks _ _ _ = groupsFirstChecks _ _ _
    simp only [groupsFirstChecks_eq_flatten, List.map_append, List.map_cons, hchecks]
  opens_eq name value := by
    have hopens : groupOpens _ _ name ys = groupOpens _ _ name xs := h.opens_eq name value
    simp only [opens, groupOpens, Clause.opens, groupsOpened_eq_countP, List.countP_append,
      List.countP_cons, hopens, Bool.and_false, Bool.or_false]

/-- Clauses that nothing opens may be left out after a list. -/
theorem append_of_firstNames_eq_empty {zs : List (Clause ρ)}
    (hzs : T.firstNames (.group zs) = ∅) (xs : List (Clause ρ)) :
    T.SameOpenings (.group xs) T (.group (xs ++ zs)) where
  firstNames_eq := by
    rw [firstNames_append, hzs, LabelSet.union_empty, ite_self]
  firstChecks_eq name := by
    have hnone : T.firstChecks name (.group zs) = [] := by
      refine List.eq_nil_iff_forall_not_mem.2 fun s hs ↦ ?_
      have hname := mem_firstNames_of_mem_firstChecks hs
      rw [hzs] at hname
      exact LabelSet.not_mem_empty hname
    rw [firstChecks_append, hnone, List.append_nil, ite_self]
  opens_eq name value := by
    have hnone : T.opens name value (.group zs) = false := by
      refine Bool.eq_false_iff.2 fun hopens ↦ ?_
      have hname := mem_firstNames_of_opens hopens
      rw [hzs] at hname
      exact LabelSet.not_mem_empty hname
    rw [opens_append, hnone, Bool.or_false, ite_self]

end SameOpenings

/-! ### Lists that stand for each other -/

/-- Two lists of clauses take members in the same way, however the parts of the value are
treated. -/
def SameTakes (T : Table ρ) (xs ys : List (Clause ρ)) : Prop :=
  ∀ deeper path members, T.takeView deeper path (.group ys) members =
    T.takeView deeper path (.group xs) members

/-- Two lists of clauses can stand for each other. -/
structure Interchanges (T : Table ρ) (xs ys : List (Clause ρ)) : Prop where
  /-- They are opened by the same members. -/
  sameOpenings : T.SameOpenings (.group xs) T (.group ys)
  /-- They take members in the same way. -/
  sameTakes : T.SameTakes xs ys

/-- In line with other clauses, lists that take members in the same way still do. -/
theorem SameTakes.inLine {xs ys : List (Clause ρ)} (h : T.SameTakes xs ys)
    (before after : List (Clause ρ)) :
    T.SameTakes (before ++ xs ++ after) (before ++ ys ++ after) := by
  intro deeper path members
  have hfun : T.takeView deeper path (.group ys) = T.takeView deeper path (.group xs) :=
    funext (h deeper path)
  simp only [takeView_append, hfun]

namespace Interchanges

variable {xs ys : List (Clause ρ)}

theorem inLine (h : T.Interchanges xs ys)
    (hall : ys.all Clause.isOptional = xs.all Clause.isOptional) (before after : List (Clause ρ)) :
    T.Interchanges (before ++ xs ++ after) (before ++ ys ++ after) where
  sameOpenings := (h.sameOpenings.append_left before).append_right after (by
    rw [List.all_append, List.all_append, hall])
  sameTakes := h.sameTakes.inLine before after

theorem optional (h : T.Interchanges xs ys) :
    T.Interchanges [.optional xs] [.optional ys] where
  sameOpenings := ((SameOpenings.optional xs).symm.trans h.sameOpenings).trans (.optional ys)
  sameTakes deeper path members := by
    have htake : T.takeGroup deeper _ path ys = T.takeGroup deeper _ path xs :=
      funext (h.sameTakes deeper path)
    have hpresent : T.present (.group ys) members = T.present (.group xs) members :=
      (h.sameOpenings.opensAlike fun _ ↦ rfl).present_eq members
    simp only [takeView, takeGroup, takeClause, htake, hpresent]

theorem oneOf (earlier later : List (List (Clause ρ))) (h : T.Interchanges xs ys) :
    T.Interchanges [.oneOf (earlier ++ xs :: later)] [.oneOf (earlier ++ ys :: later)] where
  sameOpenings := h.sameOpenings.oneOf earlier later
  sameTakes deeper path members := by
    have hself (alternatives : List (Alternative ρ)) :
        List.Forall₂ (T.ActsAlike T members) alternatives alternatives :=
      List.forall₂_same.2 fun a _ ↦ ⟨(SameOpenings.refl a.view).opensAlike fun _ ↦ rfl, rfl⟩
    have hgroup : T.ActsAlike T members ⟨.group xs, T.takeView deeper path (.group xs)⟩
        ⟨.group ys, T.takeView deeper path (.group ys)⟩ :=
      ⟨h.sameOpenings.opensAlike fun _ ↦ rfl, h.sameTakes deeper path members⟩
    simp only [takeView_oneOf, List.map_append, List.map_cons]
    exact dispatch_congr (List.rel_append (hself _) (.cons hgroup (hself _)))

end Interchanges

end Table

end JsonPattern
