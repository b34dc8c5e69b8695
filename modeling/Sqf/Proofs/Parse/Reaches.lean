import Sqf.Proofs.Parse.Steps

/-!
# States behind other states

A parser changes its state in four ways: it reads the next token, keeps a diagnostic, takes a
block number, or notes that a loop was cut off. `State.Reaches` says that one state is got from
another in these ways, so what each of them keeps holds of all that is behind a state.
-/

namespace Sqf.Parse

/-- A state is behind another one. -/
inductive State.Reaches (s : State) : State → Prop where
  | refl : Reaches s s
  | advance {t : State} (h : Reaches s t) : Reaches s (Parse.advance t).next
  | report {t : State} (d : Diagnostic) (h : Reaches s t) : Reaches s (Parse.report d t).next
  | freshId {t : State} (h : Reaches s t) : Reaches s (Parse.freshId t).next
  | stall {t : State} (h : Reaches s t) : Reaches s (Parse.stall t).next

namespace State.Reaches

variable {s t u : State}

/-- A state behind one that is behind a third is behind that one. -/
theorem trans (h : s.Reaches t) (h' : t.Reaches u) : s.Reaches u := by
  induction h' with
  | refl => exact h
  | advance _ ih => exact ih.advance
  | report d _ ih => exact ih.report d
  | freshId _ ih => exact ih.freshId
  | stall _ ih => exact ih.stall

/-- What is left is an end piece of what was left before. -/
theorem rest (h : s.Reaches t) : t.rest <:+ s.rest := by
  induction h with
  | refl => exact List.suffix_refl _
  | @advance t _ ih =>
    rw [next_advance_eq]
    exact (List.tail_suffix t.rest).trans ih
  | report d _ ih => exact ih
  | freshId _ ih => exact ih
  | stall _ ih => exact ih

/-- The end of the input stays where it is. -/
theorem finish (h : s.Reaches t) : t.finish = s.finish := by
  induction h with
  | refl => rfl
  | advance _ ih =>
    rw [next_advance_eq]
    exact ih
  | report d _ ih => exact ih
  | freshId _ ih => exact ih
  | stall _ ih => exact ih

/-- Numbers that are taken are not given back. -/
theorem nextId (h : s.Reaches t) : s.nextId ≤ t.nextId := by
  induction h with
  | refl => exact Nat.le_refl _
  | advance _ ih =>
    rw [next_advance_eq]
    exact ih
  | report d _ ih => exact ih
  | freshId _ ih => exact Nat.le_succ_of_le ih
  | stall _ ih => exact ih

/-- What was reported stays. -/
theorem diagnostics (h : s.Reaches t) : s.diagnostics.toList <+: t.diagnostics.toList := by
  induction h with
  | refl => exact List.prefix_refl _
  | advance _ ih =>
    rw [next_advance_eq]
    exact ih
  | @report t d _ ih =>
    rw [next_report, Array.toList_push]
    exact ih.trans (List.prefix_append _ _)
  | freshId _ ih => exact ih
  | stall _ ih => exact ih

/-- No diagnostic is taken back. -/
theorem size_le (h : s.Reaches t) : s.diagnostics.size ≤ t.diagnostics.size := by
  simpa using h.diagnostics.length_le

/-- The next token is the same if no token has been read. -/
theorem token_eq (h : s.Reaches t) (hrest : t.rest = s.rest) : t.token = s.token := by
  unfold State.token
  rw [hrest, h.finish]

end State.Reaches

variable {s t : State}

theorem reaches_advance (s : State) : s.Reaches (advance s).next := State.Reaches.refl.advance

theorem reaches_report (d : Diagnostic) (s : State) : s.Reaches (report d s).next :=
  State.Reaches.refl.report d

theorem reaches_freshId (s : State) : s.Reaches (freshId s).next := State.Reaches.refl.freshId

/-- Tokens that are passed over are read one by one. -/
theorem reaches_drop (s : State) (n : Nat) : s.Reaches (s.drop n) := by
  induction n generalizing s with
  | zero =>
    rw [State.drop_zero]
    exact .refl
  | succ n ih =>
    -- Dropping tokens is reading them one by one.
    cases hrest : s.rest with
    | nil =>
      have hsame : s.drop (n + 1) = s := by
        cases s
        cases hrest
        rfl
      rw [hsame]
      exact .refl
    | cons t ts =>
      have hone : (advance s).next = s.drop 1 := by
        rw [next_advance hrest]
        simp [State.drop, hrest]
      rw [Nat.add_comm, ← State.drop_drop, ← hone]
      exact (reaches_advance s).trans (ih _)

/-- The place of what was passed over between two states; if nothing was, it is where the next
token starts. -/
def State.region (s t : State) : Span :=
  if t.rest.length < s.rest.length then ⟨s.token.span.start, t.lastEnd⟩
  else .point s.token.span.start

/-- What lies between two states starts at the next token of the first. -/
theorem State.region_start (s t : State) : (s.region t).start = s.token.span.start := by
  unfold State.region
  split <;> rfl

/-- If nothing has been read between them, the region is empty. -/
theorem State.region_of_le (h : s.rest.length ≤ t.rest.length) :
    s.region t = .point s.token.span.start :=
  if_neg (Nat.not_lt_of_le h)

/-- Otherwise it ends with the last token that has been read. -/
theorem State.region_of_lt (h : t.rest.length < s.rest.length) :
    s.region t = ⟨s.token.span.start, t.lastEnd⟩ :=
  if_pos h

/-- The span of what is nested too deep is that region. -/
theorem value_skipNested (s : State) : (skipNested s).value = s.region (skipNested s).next := rfl

/-- So is the span of a statement that is skipped. -/
theorem value_synchronize (start s : State) :
    (synchronize start s).value = start.region (synchronize start s).next := rfl

theorem reaches_synchronize (start s : State) : s.Reaches (synchronize start s).next :=
  reaches_drop _ _

/-- Reading a separator, or reporting that it is missing. -/
theorem reaches_separator (s : State) : s.Reaches (Level.separator s).next := by
  rcases separator_cases s with ⟨_, hnext⟩ | ⟨_, _, hnext⟩ | ⟨_, _, hnext⟩
  · rw [hnext]
    exact reaches_advance s
  · rw [hnext]
    exact .refl
  · rw [hnext]
    exact reaches_report _ s

/-- Reading a brace, or reporting that it is missing. -/
theorem reaches_closingBrace (s : State) : s.Reaches (Level.closingBrace s).next := by
  show s.Reaches ((if s.kind = .closeCurly then (do let _ ← advance)
    else reportUnexpected "`\x7d`" : Parse Unit) s).next
  split
  · exact reaches_advance s
  · exact reaches_report _ s

/-- Reading a colon, if there is one. -/
theorem reaches_caseColon (s : State) : s.Reaches (Level.caseColon s).next := by
  show s.Reaches ((if s.kind = .colon then (do let _ ← advance) else Pure.pure () : Parse Unit)
    s).next
  split
  · exact reaches_advance s
  · exact .refl

/-- An unexpected token is reported where it stands. -/
theorem span_unexpected (s : State) (expectation : String) :
    (s.unexpected expectation).span = s.token.span := by
  unfold State.unexpected
  split <;> simp_all

end Sqf.Parse
