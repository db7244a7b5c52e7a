import JsonPattern.Proofs.Json.Places
import JsonPattern.Proofs.Validator.Accounting
import JsonPattern.Proofs.Validator.Origins

/-!
# Where failures stand

A validator looks at values that stand at a path of the whole, and at members that are left of an
object that does. Whatever a call is handed on to looks at such a place again, so every failure that
is raised on the way stands at the path of a value that is there, and what it reports as found is
read off this value.
-/

namespace JsonPattern

/-- What may be reported as found where a value stands: its kind, the value written out, or of an
object that none of its members are left, or the names of some of them. -/
inductive Json.Shows : Json → String → Prop
  | kind (value : Json) : Shows value value.kind.label
  | text (value : Json) : Shows value value.text
  | endOfMembers (members : Members) : Shows (.object members) endOfMembers
  | names {members : Members} {names : List String} (hne : names ≠ []) (hnodup : names.Nodup)
      (hsub : names ⊆ members.names) :
      Shows (.object members) ("names: " ++ ", ".intercalate names)

theorem Json.shows_shallowText (value : Json) : value.Shows value.shallowText := by
  rw [shallowText]
  split
  · exact .text value
  · exact .kind value

theorem Json.shows_literalFailure (path : Path) (literal value : Json) :
    value.Shows (Table.literalFailure path literal value).found := by
  rw [Table.literalFailure]
  split
  · exact .text value
  · exact .kind value

theorem Json.shows_namesText {members : Members} {names : List String} (hnodup : names.Nodup)
    (hsub : names ⊆ members.names) : (Json.object members).Shows (namesText names) := by
  rw [namesText]
  cases names with
  | nil => exact .endOfMembers members
  | cons name names => exact .names (List.cons_ne_nil name names) hnodup hsub

/-- The names of members that are left of an object may be reported. -/
theorem Json.shows_namesText_of_sublist {whole rest : Members} (hnodup : whole.names.Nodup)
    (hrest : rest.Sublist whole) : (Json.object whole).Shows (namesText rest.names) :=
  shows_namesText (hnodup.sublist (hrest.map Prod.fst)) (hrest.map Prod.fst).subset

variable {ρ : Type} {whole : Json} {base : Path}

/-- A call that looks for failures looks at a value where it stands in the whole, or at members
that are left of an object where that stands. -/
def Call.LooksAt (whole : Json) (base : Path) : Call ρ → Prop
  | .check _ path value => whole.StandsAt base path value
  | .take _ path members => ∃ all, whole.StandsAt base path (.object all) ∧ members.Sublist all
  | .dispatch _ path members => ∃ all, whole.StandsAt base path (.object all) ∧ members.Sublist all
  | _ => True

namespace Table

variable [DecidableEq ρ] {T : Table ρ} {call call' : Call ρ} {failure : Failure}

/-- A call hands on places of the whole only. -/
theorem Delegates.looksAt (h : T.Delegates call call') (hdistinct : whole.DistinctNames)
    (hlooks : call.LooksAt whole base) : call'.LooksAt whole base := by
  cases h with
  | item hcheck hitem => exact hlooks.item hitem
  | members path members | objects path => exact ⟨_, hlooks, .refl _⟩
  | single | optional | alternatives | chosen => exact hlooks
  | named target path hlookup =>
    obtain ⟨all, hall, hrest⟩ := hlooks
    exact hall.member hdistinct (hrest.subset (Members.mem_of_lookup hlookup))
  | many target path hmember =>
    obtain ⟨all, hall, hrest⟩ := hlooks
    exact hall.member hdistinct (hrest.subset hmember)
  | sequence path members =>
    obtain ⟨all, hall, hrest⟩ := hlooks
    exact ⟨all, hall, (takePart_rest_sublist path _ members).trans hrest⟩

/-- A failure stands where its call looks, or at a member there, and shows what it finds. -/
theorem Raises.exists_shows (h : T.Raises call failure) (hdistinct : whole.DistinctNames)
    (hlooks : call.LooksAt whole base) :
    ∃ value, whole.StandsAt base failure.path value ∧ value.Shows failure.found := by
  cases h with
  | kind | notString | notArray | notObject => exact ⟨_, hlooks, .kind _⟩
  | @literal r literal value path =>
    rw [literalFailure_path]
    exact ⟨value, hlooks, Json.shows_literalFailure path literal value⟩
  | regex => exact ⟨_, hlooks, .text _⟩
  | noBranch | branches => exact ⟨_, hlooks, Json.shows_shallowText _⟩
  | @leftOver r clauses members path =>
    exact ⟨_, hlooks, Json.shows_namesText_of_sublist (hlooks.names_nodup hdistinct)
      (takePart_rest_sublist path _ members)⟩
  | @leftOverOfObjects r alternatives objects members path =>
    exact ⟨_, hlooks, Json.shows_namesText_of_sublist (hlooks.names_nodup hdistinct)
      (dispatchViews_rest_sublist path _ members)⟩
  | missing | closed =>
    obtain ⟨all, hall, hrest⟩ := hlooks
    exact ⟨_, hall, Json.shows_namesText_of_sublist (hall.names_nodup hdistinct) hrest⟩
  | @torn views members =>
    obtain ⟨all, hall, hrest⟩ := hlooks
    refine ⟨_, hall, Json.shows_namesText (T.presentNames views members).nodup ?_⟩
    intro name hname
    obtain ⟨view, -, hname⟩ := mem_presentNames.1 hname
    exact (hrest.map Prod.fst).subset (Members.lookup_isSome_iff.1 (mem_present.1 hname).2)
  | unmatched path hdecides | claimed path hdecides =>
    obtain ⟨all, hall, hrest⟩ := hlooks
    exact ⟨_, hall.member hdistinct (hrest.subset (Members.mem_of_lookup hdecides.lookup_eq)),
      Json.shows_shallowText _⟩

/-- Every failure of a value stands at a place of the value, and shows what is found there. -/
theorem Ranked.exists_shows {rank : ρ → Nat} {bound : Nat} (h : T.Ranked Set.univ rank)
    (hsize : ∀ r, (T.check r).size + 2 ≤ bound) (hdistinct : whole.DistinctNames) {r : ρ}
    (hfailure : failure ∈ T.failures r base whole) :
    ∃ value, whole.StandsAt base failure.path value ∧ value.Shows failure.found := by
  have hmem : failure ∈ T.failuresOf (.check r base whole) := hfailure
  obtain ⟨call, hrun, hraises⟩ := (h.mem_failuresOf_iff_raised hsize).1 hmem
  have hlooks : call.LooksAt whole base := by
    clear hraises
    induction hrun with
    | refl => exact .self whole base
    | tail _ hdelegates ih => exact hdelegates.looksAt hdistinct ih
  exact hraises.exists_shows hdistinct hlooks

end Table

end JsonPattern
