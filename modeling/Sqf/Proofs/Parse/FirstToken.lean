import Sqf.Proofs.Parse.Progress

/-!
# The first token

Where the last token ended is asked only after a token has been read, for the
span of what was read. So the statements of a file are the same whatever the
state says about that when reading starts.
-/

namespace Sqf.Parse

/-- The parser does the same wherever the last token ended. -/
def Forgets (p : Parse α) (s : State) : Prop :=
  ∀ e, (p { s with lastEnd := e }).value = (p s).value ∧
    (p { s with lastEnd := e }).next = (p s).next

/-- The parser does the same wherever the last token ended, or fails without reading. -/
def ForgetsOrFails (x : Attempt α) (s : State) : Prop :=
  Forgets x.run s ∨ ∃ d, ∀ e, (x.run { s with lastEnd := e }).value = .error d ∧
    (x.run { s with lastEnd := e }).next = { s with lastEnd := e }

/-- Reading a token sets the place where the last token ended. -/
theorem advance_forgets (s : State) : Forgets advance s := by
  intro e
  rw [value_advance, value_advance, next_advance_eq, next_advance_eq]
  exact ⟨rfl, rfl⟩

/-- What comes behind a parser that forgets cannot know either. -/
theorem Forgets.bind {p : Parse α} {s : State} (h : Forgets p s) (f : α → Parse β) :
    Forgets (p >>= f) s := by
  intro e
  rw [value_bind, value_bind, next_bind, next_bind, (h e).1, (h e).2]
  exact ⟨rfl, rfl⟩

theorem Forgets.kind_bind {f : Kind → Parse α} {s : State} (h : Forgets (f s.kind) s) :
    Forgets (kind >>= f) s := h

/-- The same before a parser that may fail. -/
theorem Forgets.lift_bind {p : Parse α} {s : State} (h : Forgets p s) (f : α → Attempt β) :
    ForgetsOrFails (liftM p >>= f) s := by
  left
  intro e
  rw [Attempt.value_lift_bind, Attempt.value_lift_bind, Attempt.next_lift_bind,
    Attempt.next_lift_bind, (h e).1, (h e).2]
  exact ⟨rfl, rfl⟩

/-- The same for two parsers that may fail. -/
theorem ForgetsOrFails.bind {x : Attempt α} {s : State} (h : ForgetsOrFails x s)
    (f : α → Attempt β) : ForgetsOrFails (x >>= f) s := by
  rcases h with h | ⟨d, h⟩
  · exact .inl (Forgets.bind h (ExceptT.bindCont f))
  · refine .inr ⟨d, ?_⟩
    intro e
    rcases Attempt.bind_error (f := f) (h e).1 with ⟨hvalue, hnext⟩
    exact ⟨hvalue, hnext.trans (h e).2⟩

theorem forgetsOrFails_kind_bind {f : Kind → Attempt α} {s : State}
    (h : ForgetsOrFails (f s.kind) s) : ForgetsOrFails (liftM kind >>= f) s := h

/-- A parser may look at the state, if it does not ask for the end of the last token. -/
theorem forgetsOrFails_state_bind {f : State → Attempt α} {s : State}
    (hf : ∀ e, f { s with lastEnd := e } = f s) (h : ForgetsOrFails (f s) s) :
    ForgetsOrFails (liftM state >>= f) s := by
  have hrun (e : Nat) : ((liftM state >>= f).run { s with lastEnd := e }) =
      (f s).run { s with lastEnd := e } := by
    rw [← hf e]
    rfl
  rcases h with h | ⟨d, h⟩
  · left
    intro e
    rw [hrun]
    exact h e
  · refine .inr ⟨d, ?_⟩
    intro e
    rw [hrun]
    exact h e

/-- A failure that reads nothing is the same wherever the last token ended. -/
theorem forgetsOrFails_throw (d : Diagnostic) (s : State) :
    ForgetsOrFails (throw d : Attempt α) s :=
  .inr ⟨d, fun _ => ⟨rfl, rfl⟩⟩

/-- The turn does the same wherever the last token ended, or it is the last one and neither
reads nor reports anything. -/
def ForgetsOrEnds (p : Parse (Option α)) (s : State) : Prop :=
  ∀ e, (p { s with lastEnd := e }).value = (p s).value ∧
    ((p { s with lastEnd := e }).next = (p s).next ∨
      (p s).value = none ∧
        (p { s with lastEnd := e }).next.diagnostics = (p s).next.diagnostics)

theorem forgetsOrEnds_kind_bind {f : Kind → Parse (Option α)} {s : State}
    (h : ForgetsOrEnds (f s.kind) s) : ForgetsOrEnds (kind >>= f) s := h

/-- A turn that forgets is one of those that may also end the loop. -/
theorem Forgets.orEnds {p : Parse (Option α)} {s : State} (h : Forgets p s) :
    ForgetsOrEnds p s := by
  intro e
  exact ⟨(h e).1, .inl (h e).2⟩

namespace Level

variable {inner : Level} {table : Table} {n : Nat} {s : State}

/-- A construct starts with its keyword. -/
theorem control_forgets (inner : Level) (s : State) : Forgets inner.control s := by
  have hadvance := advance_forgets s
  unfold control
  apply Forgets.kind_bind
  split
  all_goals exact hadvance.bind _

/-- A number is read, or it is malformed. -/
theorem numberLiteral_forgets (s : State) : ForgetsOrFails numberLiteral s := by
  unfold numberLiteral
  apply forgetsOrFails_state_bind fun _ => rfl
  dsimp only
  split
  · exact (advance_forgets s).lift_bind _
  · exact forgetsOrFails_throw _ s

/-- An operand starts with a token of its own or fails without reading one. -/
theorem operand_forgets (hblock : ∀ s, Forgets inner.block s) (s : State) :
    ForgetsOrFails (inner.operand table) s := by
  unfold operand
  apply forgetsOrFails_kind_bind
  split
  case h_1 => exact numberLiteral_forgets s
  case h_6 => exact (hblock s).lift_bind _
  case h_11 =>
    split
    · exact (control_forgets inner s).lift_bind _
    · exact .inr ⟨s.unexpected "an expression", fun _ => ⟨rfl, rfl⟩⟩
  all_goals exact (advance_forgets s).lift_bind _

/-- So does a statement. -/
theorem statement_forgets (table : Table) (n : Nat) (s : State) :
    ForgetsOrFails (level table (n + 2)).statement s := by
  have hblock : ∀ s, Forgets (level table (n + 1)).block s := by
    intro s
    exact (advance_forgets s).bind _
  have hexpr : ForgetsOrFails (level table (n + 2)).expressionStmt s :=
    ((operand_forgets hblock s).bind _).bind _
  show ForgetsOrFails
    (if s.kind = .privateWord && s.kindAt 1 = .identifier && s.kindAt 2 = .assignment then do
        let start ← (Parse.advance : Parse Token)
        (level table (n + 2)).assignment true start.span
      else if startsControl s.kind then do
        let c ← ((level table (n + 2)).control : Parse Control)
        return .control c
      else if s.kind = .identifier && s.kindAt 1 = .assignment then
        (level table (n + 2)).assignment false s.token.span
      else (level table (n + 2)).expressionStmt) s
  -- Every form but the last reads a token at once; the last one starts with an operand.
  split
  · exact (advance_forgets s).lift_bind _
  · split
    · exact (control_forgets _ s).lift_bind _
    · split
      · exact (advance_forgets s).lift_bind _
      · exact hexpr

end Level

/-- Tokens that are dropped end where the last of them does. -/
theorem drop_forgets {s : State} {n : Nat} (hs : s.rest ≠ []) (hn : 0 < n) (e : Nat) :
    ({ s with lastEnd := e } : State).drop n = s.drop n := by
  have hlast : ∃ t, (s.rest.take n).getLast? = some t := by
    cases h : (s.rest.take n).getLast? with
    | some t => exact ⟨t, rfl⟩
    | none =>
      rw [List.getLast?_eq_none_iff, List.take_eq_nil_iff] at h
      rcases h with rfl | h
      · omega
      · exact absurd h hs
  rcases hlast with ⟨t, ht⟩
  simp [State.drop, ht]

/-- What is passed over is the same if it is not empty. -/
theorem synchronize_forgets {start t : State} (ht : t.rest ≠ [])
    (hlength : 0 < statementLength 0 (openGroups (t.readSince start)) t.rest) (e : Nat) :
    (synchronize start { t with lastEnd := e }).value = (synchronize start t).value ∧
      (synchronize start { t with lastEnd := e }).next = (synchronize start t).next := by
  have hdrop := drop_forgets ht hlength e
  refine ⟨?_, hdrop⟩
  exact congrArg (fun after : State => if after.rest.length < start.rest.length
    then (⟨start.token.span.start, after.lastEnd⟩ : Span)
    else .point start.token.span.start) hdrop

namespace Level

variable {table : Table} {n : Nat} {s : State}

/-- A statement or what is skipped for it has at least one token. -/
theorem statementOrError_forgets (table : Table) (n : Nat) (h : StartsStatement s) :
    Forgets (level table (n + 2)).statementOrError s := by
  intro e
  rcases statement_forgets table n s with hsame | ⟨d, hfails⟩
  · rcases hsame e with ⟨hvalue, hnext⟩
    cases hrun : ((level table (n + 2)).statement.run s).value with
    | ok stmt =>
      rcases statementOrError_ok hrun with ⟨hv, hn⟩
      rcases statementOrError_ok (hvalue.trans hrun) with ⟨hv', hn'⟩
      rw [hv, hn, hv', hn', hnext]
      exact ⟨rfl, rfl⟩
    | error d =>
      rcases statementOrError_error hrun with ⟨hv, hn⟩
      rcases statementOrError_error (hvalue.trans hrun) with ⟨hv', hn'⟩
      rw [hv, hn, hv', hn', hnext]
      exact ⟨rfl, rfl⟩
  · -- The statement failed at its first token.
    rcases statementOrError_error (hfails s.lastEnd).1 with ⟨hv, hn⟩
    rcases statementOrError_error (hfails e).1 with ⟨hv', hn'⟩
    rw [(hfails s.lastEnd).2] at hv hn
    rw [(hfails e).2] at hv' hn'
    -- Nothing has been read, so what is passed over now is the first token at least.
    have hlength : 0 < statementLength 0 (openGroups (s.readSince s)) s.rest := by
      rcases State.exists_cons h.notEnd with ⟨ts, hts⟩
      rw [hts]
      exact statementLength_pos ts _ h.notEnd h.notCurly
    have hsynchronize := synchronize_forgets (t := (report d s).next)
      (State.rest_ne_nil h.notEnd) hlength e
    rw [hv, hn, hv', hn']
    exact ⟨congrArg Stmt.error hsynchronize.1, hsynchronize.2⟩

/-- Either some separators are dropped, or the state stays as it was. -/
theorem pastSeparators_forgets (s : State) (e : Nat) :
    pastSeparators { s with lastEnd := e } = pastSeparators s ∨
      pastSeparators { s with lastEnd := e } = { pastSeparators s with lastEnd := e } := by
  -- Only a run of separators that is empty leaves the end of the last token as it was.
  by_cases hzero : separators s.rest = 0
  · right
    show State.drop _ (separators s.rest) = { s.drop (separators s.rest) with lastEnd := e }
    rw [hzero, State.drop_zero, State.drop_zero]
  · left
    have hne : s.rest ≠ [] := by
      intro hnil
      rw [hnil] at hzero
      exact hzero rfl
    exact drop_forgets hne (Nat.pos_of_ne_zero hzero) e

/-- Without separators in front, a turn reads a statement or ends the loop. -/
theorem statementOrNone_forgets (table : Table) (n : Nat) (h : s.kind.isSeparator = false) :
    ForgetsOrEnds ((level table (n + 2)).statementOrNone .file) s := by
  unfold statementOrNone
  apply forgetsOrEnds_kind_bind
  split
  · intro e
    exact ⟨rfl, .inr ⟨rfl, rfl⟩⟩
  · exact ((advance_forgets s).bind _).orEnds
  · next hend hcurly =>
    exact ((statementOrError_forgets table n ⟨hend, hcurly, h⟩).bind _).orEnds

/-- With them it is the same. -/
theorem turn_forgets (table : Table) (n : Nat) (s : State) :
    ForgetsOrEnds ((level table (n + 2)).turn .file) s := by
  intro e
  rcases turn_eq (level table (n + 2)) .file s with ⟨hvalue, hnext⟩
  rcases turn_eq (level table (n + 2)) .file { s with lastEnd := e } with ⟨hvalue', hnext'⟩
  rw [hvalue, hnext, hvalue', hnext']
  rcases pastSeparators_forgets s e with hsame | hlast
  · rw [hsame]
    exact ⟨rfl, .inl rfl⟩
  · rw [hlast]
    exact statementOrNone_forgets table n (isSeparator_pastSeparators s) e

/-- The statements of a file are the same wherever the last token before them ended. -/
theorem statements_forgets (table : Table) (n : Nat) (s : State) (e : Nat) :
    ((level table (n + 2)).statements .file { s with lastEnd := e }).value =
        ((level table (n + 2)).statements .file s).value ∧
      ((level table (n + 2)).statements .file { s with lastEnd := e }).next.diagnostics =
        ((level table (n + 2)).statements .file s).next.diagnostics := by
  rcases turn_forgets table n s e with ⟨hvalue, hnext⟩
  -- Only the first turn can see where the token before it ended.
  cases hturn : ((level table (n + 2)).turn .file s).value with
  | none =>
    rcases many_of_none hturn with ⟨hv, hn⟩
    rcases many_of_none (hvalue.trans hturn) with ⟨hv', hn'⟩
    unfold statements
    rw [hv, hn, hv', hn']
    refine ⟨rfl, ?_⟩
    rcases hnext with hsame | ⟨_, hdiagnostics⟩
    · rw [hsame]
    · exact hdiagnostics
  | some stmt =>
    rcases statements_of_some table (n + 1) .file hturn with ⟨hv, hn⟩
    rcases statements_of_some table (n + 1) .file (hvalue.trans hturn) with ⟨hv', hn'⟩
    rcases hnext with hsame | ⟨hnone, _⟩
    · rw [hv, hn, hv', hn', hsame]
      exact ⟨rfl, rfl⟩
    · rw [hturn] at hnone
      cases hnone

end Level

end Sqf.Parse
