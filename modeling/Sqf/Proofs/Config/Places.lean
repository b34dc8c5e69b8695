import Sqf.Config.Parse
import Sqf.Proofs.Parse.Places

/-!
# Places in what is reported of a config file

The parsers of config files keep what all parsers keep, so what they report is reported at
valid spans.
-/

namespace Sqf.Config

open Parse

variable {I : Invariant} {s : State}

/-! ## Values -/

section Values

variable {source : List Char} {array : Attempt Value}

/-- A number that is malformed is reported where it stands. -/
theorem number_upholds (negative : Bool) (hs : I.state s) :
    UpholdsOrFails I (number negative) (fun _ => True) s := by
  refine (UpholdsOrFails.expect hs _).bind fun t u hu ht => ?_
  split
  · exact UpholdsOrFails.pure hu trivial
  · next hvalue =>
    obtain ⟨rfl, hk⟩ := ht
    exact UpholdsOrFails.throw hu (I.number hs hk hvalue)

/-- Any value keeps the invariant, if arrays do. -/
theorem valueWith_upholds (harray : ∀ s, I.state s → UpholdsOrFails I array (fun _ => True) s)
    (s : State) (hs : I.state s) :
    UpholdsOrFails I (valueWith source array) (fun _ => True) s := by
  refine UpholdsOrFails.kind_bind ?_
  split
  · exact UpholdsOrFails.advance_bind hs fun ht => UpholdsOrFails.pure ht trivial
  · exact number_upholds false hs
  · exact UpholdsOrFails.advance_bind hs fun ht => number_upholds true ht
  · exact harray s hs
  · split
    · exact UpholdsOrFails.failUnexpected hs _
    · have hword : Upholds I (word source) (fun _ => True) s :=
        Upholds.state_bind (Upholds.skip_bind hs fun t ht => Upholds.state_bind
          (Upholds.pure ht trivial))
      exact ⟨hword.1, trivial⟩

/-- A brace that is too deep is reported where it stands. -/
theorem tooDeep_upholds {Q : α → Prop} (hs : I.state s) : UpholdsOrFails I tooDeep Q s :=
  UpholdsOrFails.state_bind (UpholdsOrFails.throw hs (I.plain rfl (I.token hs)))

/-- Arrays keep it, by induction on the levels that are left. -/
theorem array_upholds (source : List Char) (n : Nat) (s : State) (hs : I.state s) :
    UpholdsOrFails I (Config.array source n) (fun _ => True) s := by
  induction n generalizing s with
  | zero => exact tooDeep_upholds hs
  | succ n ih =>
    refine UpholdsOrFails.advance_bind hs fun ht => ?_
    refine (commaList_upholds (Q := fun _ => True) (by decide) _ (valueWith_upholds ih) _ ht).bind
      fun items u hu _ => ?_
    exact UpholdsOrFails.advance_bind hu fun hv => UpholdsOrFails.pure hv trivial

end Values

/-! ## Properties and classes -/

/-- A missing semicolon is reported at the end of what it should follow. -/
theorem terminator_upholds {stop : Nat} (hs : I.state s) (hstop : I.span (.point stop)) :
    Upholds I (terminator stop) (fun _ => True) s := by
  refine Upholds.state_bind ?_
  split
  · exact Upholds.advance_bind hs fun ht => Upholds.pure ht trivial
  · exact ⟨I.report hs (I.plain rfl hstop), trivial⟩

/-- A name, or what stands in its place. -/
theorem name_upholds (hs : I.state s) (expectation : String) :
    UpholdsOrFails I (name expectation) (fun _ => True) s := by
  refine UpholdsOrFails.state_bind ?_
  split
  · exact ⟨I.advance hs, trivial⟩
  · exact UpholdsOrFails.failUnexpected hs _

theorem brackets_upholds (hs : I.state s) : UpholdsOrFails I brackets (fun _ => True) s := by
  refine UpholdsOrFails.kind_bind ?_
  split
  · refine UpholdsOrFails.advance_bind hs fun ht => ?_
    exact (UpholdsOrFails.expect ht _).bind fun _ u hu _ => UpholdsOrFails.pure hu trivial
  · exact UpholdsOrFails.pure hs trivial

theorem assignment_upholds (hs : I.state s) (isArray : Bool) :
    UpholdsOrFails I (assignment isArray) (fun _ => True) s := by
  refine UpholdsOrFails.kind_bind ?_
  split
  · exact UpholdsOrFails.advance_bind hs fun ht => UpholdsOrFails.pure ht trivial
  · exact UpholdsOrFails.failUnexpected hs _

/-- A property keeps it if its value does. -/
theorem property_upholds {value : Attempt Value}
    (hvalue : ∀ s, I.state s → UpholdsOrFails I value (fun _ => True) s) (hs : I.state s) :
    UpholdsOrFails I (property value) (fun _ => True) s := by
  have hname := I.token hs
  refine UpholdsOrFails.advance_bind hs fun ht => ?_
  refine (brackets_upholds ht).bind fun isArray u hu _ => ?_
  refine (assignment_upholds hu isArray).bind fun appends v hv _ => UpholdsOrFails.kind_bind ?_
  split
  · exact ⟨hv, I.unexpected hv _⟩
  · refine (hvalue v hv).bind fun _ w hw _ => ?_
    refine UpholdsOrFails.spanFrom_bind hw hname fun span hspan => ?_
    exact UpholdsOrFails.lift_bind (terminator_upholds hw (I.pointStop hspan)) fun _ x hx _ =>
      UpholdsOrFails.pure hx trivial

theorem parent_upholds (hs : I.state s) : UpholdsOrFails I parent (fun _ => True) s := by
  refine UpholdsOrFails.kind_bind ?_
  split
  · refine UpholdsOrFails.advance_bind hs fun ht => ?_
    exact (name_upholds ht _).bind fun _ u hu _ => UpholdsOrFails.pure hu trivial
  · exact UpholdsOrFails.pure hs trivial

/-- The brace that closes a class, or what stands in its place. -/
theorem closing_upholds (hs : I.state s) : Upholds I closing (fun _ => True) s := by
  have hspan := I.token hs
  refine Upholds.state_bind ?_
  split
  · refine Upholds.advance_bind hs fun ht => ?_
    exact Upholds.bind (terminator_upholds ht (I.pointStop hspan)) fun _ u hu _ =>
      Upholds.pure hu trivial
  · exact Upholds.reportUnexpected_bind hs fun t ht => Upholds.pure ht trivial

/-! ## Entries -/

section Entries

variable {body : Attempt (List Entry)} {value : Attempt Value}
  (hbody : ∀ s, I.state s → UpholdsOrFails I body (fun _ => True) s)
  (hvalue : ∀ s, I.state s → UpholdsOrFails I value (fun _ => True) s)

include hbody

/-- A class keeps it if its body does. -/
theorem classWith_upholds (hs : I.state s) :
    UpholdsOrFails I (classWith body) (fun _ => True) s := by
  refine UpholdsOrFails.advance_bind hs fun ht => ?_
  refine (name_upholds ht _).bind fun _ u hu _ => ?_
  refine (parent_upholds hu).bind fun _ v hv _ => UpholdsOrFails.kind_bind ?_
  split
  · exact UpholdsOrFails.advance_bind hv fun hw => UpholdsOrFails.pure hw trivial
  · refine (hbody v hv).bind fun _ w hw _ => ?_
    exact UpholdsOrFails.lift_bind (closing_upholds hw) fun _ x hx _ =>
      UpholdsOrFails.pure hx trivial
  · exact UpholdsOrFails.failUnexpected hv _

include hvalue

/-- So does any entry. -/
theorem entry_upholds (hs : I.state s) :
    UpholdsOrFails I (entry body value) (fun _ => True) s := by
  refine UpholdsOrFails.state_bind ?_
  dsimp only
  split
  · exact UpholdsOrFails.failUnexpected hs _
  split
  · exact (classWith_upholds hbody hs).bind fun _ t ht _ => UpholdsOrFails.pure ht trivial
  · exact (property_upholds hvalue hs).bind fun _ t ht _ => UpholdsOrFails.pure ht trivial

omit hbody hvalue in
/-- So does skipping. -/
theorem synchronize_upholds (start : State) (hs : I.state s) :
    Upholds I (synchronize start) (fun _ => True) s := by
  refine Upholds.state_bind (Upholds.skip_bind hs fun t ht => Upholds.state_bind ?_)
  split
  · exact Upholds.advance_bind ht fun hu => Upholds.pure hu trivial
  · exact Upholds.pure ht trivial

/-- So does a turn of the loop over entries. -/
theorem turn_upholds (s : State) (hs : I.state s) :
    Upholds I (turn body value) (fun _ => True) s := by
  refine Upholds.kind_bind ?_
  split
  · exact Upholds.pure hs trivial
  · exact Upholds.pure hs trivial
  · exact Upholds.advance_bind hs fun ht => Upholds.pure ht trivial
  · refine Upholds.state_bind (Upholds.bind (entry_upholds hbody hvalue hs) ?_)
    intro outcome t ht houtcome
    cases outcome with
    | ok e => exact Upholds.pure ht trivial
    | error d =>
      refine Upholds.report_bind ht houtcome fun u hu => ?_
      exact Upholds.bind (synchronize_upholds s hu) fun _ v hv _ => Upholds.pure hv trivial

/-- And so does the loop. -/
theorem entriesWith_upholds (hs : I.state s) :
    Upholds I (entriesWith body value) (fun _ => True) s := by
  have hmany := many_upholds (Q := fun _ => True)
    (fun t ht => (turn_upholds hbody hvalue t ht).weaken fun _ _ _ _ => trivial) s hs
  exact Upholds.bind hmany fun _ t ht _ => Upholds.pure ht trivial

end Entries

/-- The body of a class keeps it, by induction on the levels that are left. -/
theorem body_upholds (source : List Char) (n : Nat) (s : State) (hs : I.state s) :
    UpholdsOrFails I (body source n) (fun _ => True) s := by
  induction n generalizing s with
  | zero => exact tooDeep_upholds hs
  | succ n ih =>
    refine UpholdsOrFails.advance_bind hs fun ht => ?_
    have hvalue : ∀ t, I.state t →
        UpholdsOrFails I (valueWith source (array source n)) (fun _ => True) t :=
      valueWith_upholds (array_upholds source n)
    exact ⟨(entriesWith_upholds ih hvalue ht).1, trivial⟩

theorem topEntries_upholds (source : List Char) (hs : I.state s) :
    Upholds I (topEntries source) (fun _ => True) s :=
  entriesWith_upholds (body_upholds source _) (valueWith_upholds (array_upholds source _)) hs

/-- A stray brace is reported where it stands. -/
theorem strayTurn_upholds (source : List Char) (s : State) (hs : I.state s) :
    Upholds I (strayTurn source) (fun _ => True) s := by
  refine Upholds.kind_bind ?_
  split
  · exact Upholds.pure hs trivial
  · refine Upholds.reportUnexpected_bind hs fun t ht => Upholds.advance_bind ht fun hu => ?_
    exact Upholds.bind (topEntries_upholds source hu) fun _ v hv _ => Upholds.pure hv trivial

theorem allEntries_upholds (source : List Char) (hs : I.state s) :
    Upholds I (allEntries source) (fun _ => True) s := by
  have hstray (t : State) (ht : I.state t) :
      Upholds I (strayTurn source) (fun found => ∀ entries ∈ found, True) t :=
    (strayTurn_upholds source t ht).weaken fun _ _ _ _ => trivial
  refine Upholds.bind (topEntries_upholds source hs) fun _ t ht _ => ?_
  exact Upholds.bind (many_upholds hstray t ht) fun _ u hu _ => Upholds.pure hu trivial

/-- What is reported of a config file is reported at valid spans. -/
theorem parse_places (source : String) :
    ∀ d ∈ (parse source).diagnostics, d.span.Valid source := by
  have hnext := (allEntries_upholds source.toList (among_initial source)).1
  intro d hd
  rcases List.mem_append.1 ((Diagnostic.sortByStart_perm _).mem_iff.1 hd) with hd | hd
  · exact valid_of_mem_diagnostics hd
  · exact hnext.reports d (Array.mem_toList_iff.1 hd)

end Sqf.Config
