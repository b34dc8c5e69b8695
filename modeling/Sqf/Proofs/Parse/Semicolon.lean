import Sqf.Proofs.Parse.Nesting
import Sqf.Proofs.Parse.SideBySide

/-!
# Before and behind a semicolon

A script is read up to a semicolon in the same way whatever stands behind it, as
long as the brackets in front of it are properly nested (`Before`). Behind the
semicolon it is read as if it stood alone, but for the numbers of its blocks
(`Behind`). Both are simulations, so they hold of all of the reading.
-/

namespace Sqf.Parse

/-! ## Before the semicolon -/

/-- Two runs have found the same so far. The first script ends where `behind` does. -/
structure SameFound (behind s s' : State) : Prop where
  finish : s.finish = behind.finish
  lastEnd : s.lastEnd = s'.lastEnd
  nextId : s.nextId = s'.nextId
  diagnostics : s.diagnostics = s'.diagnostics
  stalled : s.stalled = s'.stalled
  positive : 1 ≤ s.nextId

/-- Both runs are before the same semicolon. Behind it the second script ends, and the first one
goes on with the tokens of the state `behind`. At least `k` closing braces are pending. -/
structure Before (semi : Token) (behind : State) (k : Nat) (s s' : State) : Prop where
  found : SameFound behind s s'
  tokens : ∃ ts closers, s.rest = ts ++ semi :: behind.rest ∧ s'.rest = ts ++ [semi] ∧
    Pending ts closers ∧ k ≤ closers.count .closeCurly

namespace Before

variable {semi : Token} {behind : State} {k : Nat} {s s' : State}

/-- Both scripts have the same next token. -/
theorem token_eq (h : Before semi behind k s s') : s.token = s'.token := by
  rcases h.tokens with ⟨ts, closers, hs, hs', -, -⟩
  cases ts with
  | nil => rw [State.token_cons hs, State.token_cons hs']
  | cons t ts => rw [State.token_cons hs, State.token_cons hs']

/-- So they have tokens of the same kind. -/
theorem kind_eq (h : Before semi behind k s s') : s.kind = s'.kind :=
  congrArg Token.kind h.token_eq

/-- A look past tokens that are not the semicolon is the same in both runs. -/
theorem kindAt_eq {n : Nat} {ts : List Token} (hs : s.rest = ts ++ semi :: behind.rest)
    (hs' : s'.rest = ts ++ [semi]) (hn : n ≤ ts.length) : s.kindAt n = s'.kindAt n := by
  unfold State.kindAt
  rw [hs, hs']
  rcases Nat.lt_or_eq_of_le hn with hlt | rfl
  · rw [List.getElem?_append_left hlt, List.getElem?_append_left hlt]
  · simp

/-- What is not the semicolon stands in front of it. -/
theorem length_pos {ts : List Token} (hsemi : semi.kind = .semicolon)
    (hs : s.rest = ts ++ semi :: behind.rest) (hkind : s.kind ≠ .semicolon) : 1 ≤ ts.length := by
  cases ts with
  | nil =>
    rw [State.kind_cons hs] at hkind
    exact absurd hsemi hkind
  | cons t ts => exact Nat.le_add_left _ _

/-- What was read since an earlier state is the same in both runs. -/
theorem readSince_eq {t t' : State} {ts vs : List Token} (hs : s.rest = ts ++ semi :: behind.rest)
    (hs' : s'.rest = ts ++ [semi]) (ht : t.rest = vs ++ semi :: behind.rest)
    (ht' : t'.rest = vs ++ [semi]) : t.readSince s = t'.readSince s' := by
  unfold State.readSince
  -- Both runs have the same tokens behind the statement, whose lengths cancel.
  have hlength : s.rest.length - t.rest.length = ts.length - vs.length := by
    simp only [hs, ht, List.length_append, List.length_cons]
    omega
  have hlength' : s'.rest.length - t'.rest.length = ts.length - vs.length := by
    simp only [hs', ht', List.length_append, List.length_cons]
    omega
  rw [hlength, hlength', hs, hs', List.take_append_of_le_length (Nat.sub_le _ _),
    List.take_append_of_le_length (Nat.sub_le _ _)]

/-- Fewer braces may be counted. -/
theorem weaken {j : Nat} (h : Before semi behind k s s') (hj : j ≤ k) :
    Before semi behind j s s' := by
  rcases h.tokens with ⟨ts, closers, hs, hs', hpending, hk⟩
  exact ⟨h.found, ts, closers, hs, hs', hpending, Nat.le_trans hj hk⟩

/-- A skip that ends before the semicolon is the same in both runs. -/
theorem drop {length : List Token → Nat} {P : List Kind → Prop} {ts : List Token} {j : Nat}
    (hsemi : semi.kind = .semicolon) (hfound : SameFound behind s s')
    (hs : s.rest = ts ++ semi :: behind.rest) (hs' : s'.rest = ts ++ [semi])
    (hends : EndsWithin length ts P)
    (hP : ∀ closers, P closers → j ≤ closers.count .closeCurly) :
    Before semi behind j (s.drop (length s.rest)) (s'.drop (length s'.rest)) := by
  -- The length of the skip does not depend on what stands behind the semicolon.
  rcases hends with ⟨m, hm, hlength, closers, hpending, hleft⟩
  rw [hs, hs', hlength semi behind.rest hsemi, hlength semi [] hsemi]
  constructor
  · constructor
    · exact hfound.finish
    · unfold State.drop
      dsimp only
      rw [hs, hs', List.take_append_of_le_length hm, List.take_append_of_le_length hm,
        hfound.lastEnd]
    · exact hfound.nextId
    · exact hfound.diagnostics
    · exact hfound.stalled
    · exact hfound.positive
  · refine ⟨ts.drop m, closers, ?_, ?_, hpending, hP closers hleft⟩
    · show s.rest.drop m = _
      rw [hs, List.drop_append_of_le_length hm]
    · show s'.rest.drop m = _
      rw [hs', List.drop_append_of_le_length hm]

/-- Both scripts may read a token in front of the semicolon. -/
theorem advance {t : Token} {ts : List Token} {closers : List Kind} {j : Nat}
    (hfound : SameFound behind s s') (hs : s.rest = t :: ts ++ semi :: behind.rest)
    (hs' : s'.rest = t :: ts ++ [semi]) (hpending : Pending ts closers)
    (hj : j ≤ closers.count .closeCurly) :
    Before semi behind j (advance s).next (Parse.advance s').next := by
  rw [next_advance hs, next_advance hs']
  exact ⟨⟨hfound.finish, rfl, hfound.nextId, hfound.diagnostics, hfound.stalled, hfound.positive⟩,
    ts, closers, rfl, rfl, hpending, hj⟩

/-- A token that is no brace and not the semicolon leaves the pending braces as they are. -/
theorem advance_inStatement (h : Before semi behind k s s') (hsemi : semi.kind = .semicolon)
    (hopen : s.kind ≠ .openCurly) (hclose : s.kind ≠ .closeCurly)
    (hin : s.kind = .semicolon → 1 ≤ k) :
    Before semi behind k (Parse.advance s).next (Parse.advance s').next := by
  rcases h.tokens with ⟨ts, closers, hs, hs', hpending, hk⟩
  cases hpending with
  | nil =>
    -- The semicolon would be read next, but not while a brace is pending.
    have hpositive := hin (by rw [State.kind_cons hs, hsemi])
    rw [List.count_nil] at hk
    omega
  | inner _ others => exact advance h.found hs hs' others hk
  | @opener t ts c _ hcloser others =>
    rw [State.kind_cons hs] at hopen
    have hc : c ≠ .closeCurly := by
      rintro rfl
      cases hkind : t.kind <;> simp_all [Kind.closer?]
    exact advance h.found hs hs' others (by rwa [List.count_cons_of_ne hc])
  | closer _ others =>
    rw [State.kind_cons hs] at hclose
    rw [List.count_cons_of_ne hclose] at hk
    exact advance h.found hs hs' others hk

/-- A brace that is opened is one more that is pending. -/
theorem enter (h : Before semi behind k s s') (hsemi : semi.kind = .semicolon)
    (hopen : s.kind = .openCurly) :
    Before semi behind (k + 1) (Parse.advance s).next (Parse.advance s').next := by
  rcases h.tokens with ⟨ts, closers, hs, hs', hpending, hk⟩
  -- Of what may come next, only an opener is an opening brace.
  cases hpending with
  | nil =>
    rw [State.kind_cons hs, hsemi] at hopen
    cases hopen
  | inner hinner _ =>
    rw [State.kind_cons hs] at hopen
    rw [hopen] at hinner
    cases hinner
  | opener hcloser others =>
    rw [State.kind_cons hs] at hopen
    rw [hopen] at hcloser
    cases hcloser
    exact advance h.found hs hs' others (by rw [List.count_cons_self]; omega)
  | closer hcloses _ =>
    rw [State.kind_cons hs] at hopen
    rw [hopen] at hcloses
    cases hcloses

/-- A brace that is closed is one fewer. -/
theorem leave (h : Before semi behind (k + 1) s s')
    (hclose : s.kind = .closeCurly) :
    Before semi behind k (Parse.advance s).next (Parse.advance s').next := by
  rcases h.tokens with ⟨ts, closers, hs, hs', hpending, hk⟩
  -- Of what may come next, only a closer is a closing brace.
  cases hpending with
  | nil =>
    rw [List.count_nil] at hk
    omega
  | inner hinner _ =>
    rw [State.kind_cons hs] at hclose
    rw [hclose] at hinner
    cases hinner
  | opener hcloser _ =>
    rw [State.kind_cons hs] at hclose
    rw [hclose] at hcloser
    cases hcloser
  | closer _ others =>
    rw [State.kind_cons hs] at hclose
    rw [hclose, List.count_cons_self] at hk
    exact advance h.found hs hs' others (by omega)

/-- All of the reading keeps the two runs together, inside of the statement. -/
theorem simulation (table : Table) (hsemi : semi.kind = .semicolon) :
    Simulation table table {} (Before semi behind) (1 ≤ ·) where
  loops_succ k := Nat.le_add_left 1 k
  span _ := rfl
  kind h := h.kind_eq
  place h := by rw [h.token_eq]
  text h _ := by rw [h.token_eq]
  isLocal h _ := by rw [h.token_eq]
  numeral h _ := by rw [h.token_eq]
  tier h _ := by rw [h.token_eq]
  startsOperand := by
    intro k s s' h
    rcases h.tokens with ⟨ts, closers, hs, hs', -, -⟩
    rw [hs, hs', startsOperand_append table hsemi ts _]
  assigns := by
    intro k s s' h hkind
    rcases h.tokens with ⟨ts, closers, hs, hs', -, -⟩
    have hpos := length_pos hsemi hs (by simp [hkind])
    rw [kindAt_eq hs hs' hpos]
  assignsPrivately := by
    intro k s s' h hkind
    rcases h.tokens with ⟨ts, closers, hs, hs', -, -⟩
    have hpos := length_pos hsemi hs (by simp [hkind])
    rw [kindAt_eq hs hs' hpos]
    by_cases hsecond : s'.kindAt 1 = .identifier
    · -- The second token is not the semicolon either, so the third one is looked at in both runs.
      have hlength : 2 ≤ ts.length := by
        rcases Nat.lt_or_eq_of_le hpos with hlt | heq
        · exact hlt
        · rw [State.kindAt, hs', heq, List.getElem?_concat_length] at hsecond
          have hidentifier : semi.kind = .identifier := hsecond
          rw [hsemi] at hidentifier
          cases hidentifier
      rw [kindAt_eq hs hs' hlength]
    · simp [hsecond]
  lastEnd h := h.found.lastEnd
  shorter := by
    intro k s s' t t' h ht
    rcases h.tokens with ⟨ts, closers, hs, hs', -, -⟩
    rcases ht.tokens with ⟨vs, _, ht, ht', -, -⟩
    simp only [hs, hs', ht, ht', List.length_append, List.length_cons, List.length_nil]
    omega
  advance h _ hopen hclose hin := h.advance_inStatement hsemi hopen hclose hin
  enter h hopen := h.enter hsemi hopen
  leave h hclose := h.leave hclose
  weaken h := h.weaken (Nat.le_succ _)
  report := by
    intro k s s' d h
    rcases h with ⟨⟨hfinish, hlast, hid, hdiagnostics, hstalled, hpositive⟩, htokens⟩
    refine ⟨⟨hfinish, hlast, hid, ?_, hstalled, hpositive⟩, htokens⟩
    rw [next_report, next_report, hdiagnostics, Recast.diagnostic_renumber]
  nextId h := h.found.nextId
  freshId := by
    intro k s s' h
    rcases h with ⟨⟨hfinish, hlast, hid, hdiagnostics, hstalled, hpositive⟩, htokens⟩
    exact ⟨⟨hfinish, hlast, congrArg (· + 1) hid, hdiagnostics, hstalled,
      Nat.le_succ_of_le hpositive⟩, htokens⟩
  stall := by
    intro k s s' h
    rcases h with ⟨⟨hfinish, hlast, hid, hdiagnostics, hstalled, hpositive⟩, htokens⟩
    exact ⟨⟨hfinish, hlast, hid, hdiagnostics, rfl, hpositive⟩, htokens⟩
  dropNested := by
    intro k s s' h
    rcases h.tokens with ⟨ts, closers, hs, hs', hpending, hk⟩
    have hends : EndsWithin (nestedLength 0) ts (· = closers) :=
      nestedLength_endsWithin hpending (List.nil_append _).symm
    exact drop hsemi h.found hs hs' hends (by rintro _ rfl; exact hk)
  dropUntil := by
    intro k s s' stops h
    rcases h.tokens with ⟨ts, closers, hs, hs', hpending, hk⟩
    have hends : EndsWithin (untilLength stops 0) ts
        fun left => left.count .closeCurly = closers.count .closeCurly :=
      untilLength_endsWithin stops hpending (List.nil_append _).symm
    exact drop hsemi h.found hs hs' hends (by intro left hleft; omega)
  dropStatement := by
    intro k s s' t t' hloops h ht _
    rcases h.tokens with ⟨ts, _, hs, hs', -, -⟩
    rcases ht.tokens with ⟨vs, closers, htr, htr', hpending, hk⟩
    rw [readSince_eq hs hs' htr htr']
    have hstatement : StatementEnds 0 (openGroups (t'.readSince s'))
        (closers.count .closeCurly) vs :=
      statementEnds _ hpending (Nat.zero_add _).symm
    rcases hstatement with hends | ⟨hzero, _⟩
    · exact drop hsemi ht.found htr htr' hends (by intro left hleft; omega)
    · -- Only without a pending brace could the statement end with the semicolon.
      omega
  dropSeparators := by
    intro k s s' hloops h
    rcases h.tokens with ⟨ts, closers, hs, hs', hpending, hk⟩
    rcases separators_endsWithin hpending with hends | ⟨rfl, _⟩
    · exact drop hsemi h.found hs hs' hends (by rintro _ rfl; exact hk)
    · rw [List.count_nil] at hk
      omega

end Before

/-! ## Behind the semicolon -/

/-- The first run is behind the semicolon where the second one, which reads the tokens behind
it alone, is as well. The first run has found more diagnostics and used more block numbers. -/
structure Behind (found : Array Diagnostic) (shift : Nat) (s s' : State) : Prop where
  rest : s.rest = s'.rest
  finish : s.finish = s'.finish
  lastEnd : s.lastEnd = s'.lastEnd
  nextId : s.nextId = s'.nextId + shift
  diagnostics : s.diagnostics = found ++ s'.diagnostics

namespace Behind

variable {found : Array Diagnostic} {shift : Nat} {s s' : State}

/-- Behind the semicolon both scripts have the same next token. -/
theorem token_eq (h : Behind found shift s s') : s.token = s'.token := by
  unfold State.token
  rw [h.rest, h.finish]

/-- And the same tokens further on. -/
theorem kindAt_eq (h : Behind found shift s s') (n : Nat) : s.kindAt n = s'.kindAt n := by
  unfold State.kindAt
  rw [h.rest]

/-- Both may drop tokens. -/
theorem drop (h : Behind found shift s s') (n : Nat) :
    Behind found shift (s.drop n) (s'.drop n) := by
  refine ⟨?_, h.finish, ?_, h.nextId, h.diagnostics⟩
  · show s.rest.drop n = s'.rest.drop n
    rw [h.rest]
  · unfold State.drop
    dsimp only
    rw [h.rest, h.lastEnd]

/-- Both may read one. -/
theorem advance (h : Behind found shift s s') :
    Behind found shift (Parse.advance s).next (Parse.advance s').next := by
  rw [next_advance_eq, next_advance_eq]
  refine ⟨?_, h.finish, ?_, h.nextId, h.diagnostics⟩
  · show s.rest.tail = s'.rest.tail
    rw [h.rest]
  · show s.token.span.stop = s'.token.span.stop
    rw [h.token_eq]

/-- All of the reading keeps the two runs together, and shifts the numbers of blocks. -/
theorem simulation (table : Table) (found : Array Diagnostic) (shift : Nat) :
    Simulation table table { id := (· + shift) } (fun _ => Behind found shift)
      (fun _ => True) where
  loops_succ _ := trivial
  span _ := rfl
  kind h := congrArg Token.kind h.token_eq
  place h := by rw [h.token_eq]
  text h _ := by rw [h.token_eq]
  isLocal h _ := by rw [h.token_eq]
  numeral h _ := by rw [h.token_eq]
  tier h _ := by rw [h.token_eq]
  startsOperand h := by rw [h.rest]
  assigns h _ := by rw [h.kindAt_eq]
  assignsPrivately h _ := by rw [h.kindAt_eq, h.kindAt_eq]
  lastEnd h := h.lastEnd
  shorter h ht := by rw [h.rest, ht.rest]
  advance h _ _ _ _ := h.advance
  enter h _ := h.advance
  leave h _ := h.advance
  weaken := id
  report := by
    intro _ s s' d h
    refine ⟨h.rest, h.finish, h.lastEnd, h.nextId, ?_⟩
    rw [next_report, next_report, h.diagnostics, Recast.diagnostic_renumber, Array.append_push]
  nextId h := h.nextId
  freshId := by
    intro _ s s' h
    refine ⟨h.rest, h.finish, h.lastEnd, ?_, h.diagnostics⟩
    show s.nextId + 1 = s'.nextId + 1 + shift
    rw [h.nextId]
    omega
  stall h := ⟨h.rest, h.finish, h.lastEnd, h.nextId, h.diagnostics⟩
  dropNested h := by
    rw [h.rest]
    exact h.drop _
  dropUntil stops h := by
    rw [h.rest]
    exact h.drop _
  dropStatement _ h ht _ := by
    unfold State.readSince
    rw [h.rest, ht.rest]
    exact ht.drop _
  dropSeparators _ h := by
    rw [h.rest]
    exact h.drop _

end Behind

end Sqf.Parse
