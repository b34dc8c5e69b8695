import Sqf.Proofs.Parse.FirstToken
import Sqf.Proofs.Parse.Semicolon

/-!
# Errors stay in their statement

Here the loop over the statements of a file is followed across a semicolon. Up
to there a script and its front part are read alike (`Before`), and a statement,
however malformed, ends before the semicolon or with it. From there on the
script and its back part are read alike (`Behind`).
-/

namespace Sqf.Parse

/-- The first run is right behind the semicolon, where the second script ends. -/
structure Crossed (behind s s' : State) : Prop where
  found : SameFound behind s s'
  rest : s.rest = behind.rest
  ended : s'.rest = []

namespace Crossed

variable {semi : Token} {behind : State} {s s' : State}

/-- Both scripts cross the semicolon when they drop all tokens through it. -/
theorem of_drop {ts : List Token} (hfound : SameFound behind s s')
    (hs : s.rest = ts ++ semi :: behind.rest) (hs' : s'.rest = ts ++ [semi]) :
    Crossed behind (s.drop (ts.length + 1)) (s'.drop (ts.length + 1)) := by
  have hrest : ∀ us, (ts ++ semi :: us).drop (ts.length + 1) = us := by
    intro us
    rw [List.append_cons, List.drop_left' (by simp)]
  have htake : ∀ us, (ts ++ semi :: us).take (ts.length + 1) = ts ++ [semi] := by
    intro us
    rw [List.append_cons, List.take_left' (by simp)]
  constructor
  · refine ⟨hfound.finish, ?_, hfound.nextId, hfound.diagnostics, hfound.stalled,
      hfound.positive⟩
    unfold State.drop
    dsimp only
    rw [hs, hs', htake, htake, hfound.lastEnd]
  · show s.rest.drop (ts.length + 1) = behind.rest
    rw [hs, hrest]
  · show s'.rest.drop (ts.length + 1) = []
    rw [hs', hrest]

/-- A diagnostic is kept in both, also behind the semicolon. -/
theorem report (h : Crossed behind s s') (d : Diagnostic) :
    Crossed behind (Parse.report d s).next (Parse.report d s').next := by
  rcases h with ⟨⟨hfinish, hlast, hid, hdiagnostics, hstalled, hpositive⟩, hrest, hended⟩
  refine ⟨⟨hfinish, hlast, hid, ?_, hstalled, hpositive⟩, hrest, hended⟩
  rw [next_report, next_report, hdiagnostics]

end Crossed

namespace Before

variable {semi : Token} {behind : State} {s s' : State}

/-- In front of the semicolon the input does not end. -/
theorem ne_endOfInput (h : Before semi behind 0 s s') (hsemi : semi.kind = .semicolon) :
    s.kind ≠ .endOfInput := by
  rcases h.tokens with ⟨ts, closers, hs, -, hpending, -⟩
  cases hpending with
  | nil =>
    rw [State.kind_cons hs, hsemi]
    decide
  | inner hinner _ =>
    rw [State.kind_cons hs]
    exact (isInner_iff.1 hinner).2.2
  | opener hcloser _ =>
    rw [State.kind_cons hs]
    exact ne_endOfInput_of_opens ((Kind.opensGroup_iff _).2 ⟨_, hcloser⟩)
  | closer hcloses _ =>
    rw [State.kind_cons hs]
    exact ne_endOfInput_of_closes hcloses

/-- A token that is read is before the semicolon or is the semicolon. -/
theorem advance_or_cross (h : Before semi behind 0 s s') :
    Before semi behind 0 (Parse.advance s).next (Parse.advance s').next ∨
      Crossed behind (Parse.advance s).next (Parse.advance s').next := by
  rcases h.tokens with ⟨ts, closers, hs, hs', hpending, -⟩
  cases hpending with
  | nil =>
    right
    rw [next_advance hs, next_advance hs']
    exact ⟨⟨h.found.finish, rfl, h.found.nextId, h.found.diagnostics, h.found.stalled,
      h.found.positive⟩, rfl, rfl⟩
  | inner _ others => exact .inl (advance h.found hs hs' others (Nat.zero_le _))
  | opener _ others => exact .inl (advance h.found hs hs' others (Nat.zero_le _))
  | closer _ others => exact .inl (advance h.found hs hs' others (Nat.zero_le _))

/-- A diagnostic is kept in both. -/
theorem report (h : Before semi behind 0 s s') (hsemi : semi.kind = .semicolon)
    (d : Diagnostic) :
    Before semi behind 0 (Parse.report d s).next (Parse.report d s').next := by
  have hreport := (simulation .empty hsemi).report d h
  rwa [Recast.diagnostic_renumber] at hreport

/-- The separator that is read may be the semicolon itself. -/
theorem separator_or_cross (h : Before semi behind 0 s s') (hsemi : semi.kind = .semicolon) :
    Before semi behind 0 (Level.separator s).next (Level.separator s').next ∨
      Crossed behind (Level.separator s).next (Level.separator s').next := by
  have htoken := h.token_eq
  have hkind := h.kind_eq
  -- Both runs look at tokens of the same kind, so the cases that differ cannot occur.
  rcases separator_cases s with ⟨hread, hnext⟩ | ⟨hother, hlast, hnext⟩ | ⟨hother, hmore, hnext⟩
  · rcases separator_cases s' with ⟨_, hnext'⟩ | ⟨hother', _⟩ | ⟨hother', _⟩
    · rw [hnext, hnext']
      exact h.advance_or_cross
    · rw [← hkind, hread] at hother'
      cases hother'
    · rw [← hkind, hread] at hother'
      cases hother'
  · rw [hkind] at hother hlast
    rcases separator_cases s' with ⟨hread', _⟩ | ⟨_, _, hnext'⟩ | ⟨_, hmore', _⟩
    · rw [hother] at hread'
      cases hread'
    · rw [hnext, hnext']
      exact .inl h
    · exact absurd hlast hmore'
  · rw [hkind] at hother hmore
    rcases separator_cases s' with ⟨hread', _⟩ | ⟨_, hlast', _⟩ | ⟨_, _, hnext'⟩
    · rw [hother] at hread'
      cases hread'
    · exact absurd hlast' hmore
    · rw [hnext, hnext', htoken]
      exact .inl (h.report hsemi _)

/-- The end of the statement is before the semicolon, or is the semicolon. -/
theorem dropStatement_or_cross {t t' : State} (h : Before semi behind 0 s s')
    (ht : Before semi behind 0 t t') (hsemi : semi.kind = .semicolon) :
    Before semi behind 0 (synchronize s t).next (synchronize s' t').next ∨
      Crossed behind (synchronize s t).next (synchronize s' t').next := by
  rcases h.tokens with ⟨ts, _, hs, hs', -, -⟩
  rcases ht.tokens with ⟨vs, closers, htr, htr', hpending, -⟩
  have hread := readSince_eq hs hs' htr htr'
  have hstatement : StatementEnds 0 (openGroups (t'.readSince s'))
      (closers.count .closeCurly) vs :=
    statementEnds _ hpending (Nat.zero_add _).symm
  show Before semi behind 0 (t.drop (statementLength 0 (openGroups (t.readSince s)) t.rest))
      (t'.drop (statementLength 0 (openGroups (t'.readSince s')) t'.rest)) ∨
    Crossed behind (t.drop (statementLength 0 (openGroups (t.readSince s)) t.rest))
      (t'.drop (statementLength 0 (openGroups (t'.readSince s')) t'.rest))
  rw [hread]
  rcases hstatement with hends | ⟨_, hlength⟩
  · exact .inl (drop hsemi ht.found htr htr' hends fun _ _ => Nat.zero_le _)
  · right
    rw [htr, htr', hlength semi behind.rest hsemi, hlength semi [] hsemi]
    exact Crossed.of_drop ht.found htr htr'

/-- What is passed over has the same span in both runs. -/
theorem synchronize_value {t t' : State} (h : Before semi behind 0 s s')
    (ht : Before semi behind 0 t t') (hsemi : semi.kind = .semicolon) :
    (synchronize s t).value = (synchronize s' t').value := by
  have hplace : s.token.span = s'.token.span := by rw [h.token_eq]
  have hlast : (synchronize s t).next.lastEnd = (synchronize s' t').next.lastEnd := by
    rcases dropStatement_or_cross h ht hsemi with hbefore | hcrossed
    · exact hbefore.found.lastEnd
    · exact hcrossed.found.lastEnd
  have hshorter : (synchronize s t).next.rest.length < s.rest.length ↔
      (synchronize s' t').next.rest.length < s'.rest.length := by
    rcases dropStatement_or_cross h ht hsemi with hbefore | hcrossed
    · exact (simulation .empty hsemi).shorter h hbefore
    · -- Both runs have read the semicolon, so neither has stayed where it was.
      rcases h.tokens with ⟨ts, _, hs, hs', -, -⟩
      rw [hcrossed.rest, hcrossed.ended, hs, hs']
      simp only [List.length_append, List.length_cons, List.length_nil]
      omega
  show (if (synchronize s t).next.rest.length < s.rest.length
      then (⟨s.token.span.start, (synchronize s t).next.lastEnd⟩ : Span)
      else .point s.token.span.start) =
    (if (synchronize s' t').next.rest.length < s'.rest.length
      then (⟨s'.token.span.start, (synchronize s' t').next.lastEnd⟩ : Span)
      else .point s'.token.span.start)
  rw [hplace, hlast]
  by_cases hlt : (synchronize s t).next.rest.length < s.rest.length
  · rw [if_pos hlt, if_pos (hshorter.1 hlt)]
  · rw [if_neg hlt, if_neg fun hlt' => hlt (hshorter.2 hlt')]

/-- A statement, or what is skipped for it, is the same in both. -/
theorem statementOrError_or_cross (h : Before semi behind 0 s s')
    (hsemi : semi.kind = .semicolon) (table : Table) (n : Nat) :
    ((level table n).statementOrError s).value = ((level table n).statementOrError s').value ∧
      (Before semi behind 0 ((level table n).statementOrError s).next
          ((level table n).statementOrError s').next ∨
        Crossed behind ((level table n).statementOrError s).next
          ((level table n).statementOrError s').next) := by
  have sim : Simulation table table {} (Before semi behind) (1 ≤ ·) := simulation table hsemi
  rcases sim.agreeOrFail_statement (sim.level n) h with ⟨hvalue, hnext⟩
  -- Either both statements were read, or neither was and the reports are the same.
  generalize hrun : ((level table n).statement.run s).value = outcome at hvalue
  generalize hrun' : ((level table n).statement.run s').value = outcome' at hvalue
  cases hvalue with
  | ok hstmt =>
    rcases statementOrError_ok hrun with ⟨hv, hn⟩
    rcases statementOrError_ok hrun' with ⟨hv', hn'⟩
    rw [hv, hn, hv', hn', hstmt, Recast.stmt_default]
    exact ⟨rfl, separator_or_cross hnext hsemi⟩
  | error d =>
    rw [Recast.diagnostic_renumber] at hrun
    rcases statementOrError_error hrun with ⟨hv, hn⟩
    rcases statementOrError_error hrun' with ⟨hv', hn'⟩
    have hreport := hnext.report hsemi d
    rw [hv, hn, hv', hn']
    exact ⟨congrArg Stmt.error (synchronize_value h hreport hsemi),
      dropStatement_or_cross h hreport hsemi⟩

/-- A turn outside of any block gives the same statement in both runs. -/
theorem statementOrNone_or_cross (h : Before semi behind 0 s s')
    (hsemi : semi.kind = .semicolon) (hseparator : s.kind.isSeparator = false) (table : Table)
    (n : Nat) :
    ∃ stmt, ((level table n).statementOrNone .file s).value = some stmt ∧
      ((level table n).statementOrNone .file s').value = some stmt ∧
      (Before semi behind 0 ((level table n).statementOrNone .file s).next
          ((level table n).statementOrNone .file s').next ∨
        Crossed behind ((level table n).statementOrNone .file s).next
          ((level table n).statementOrNone .file s').next) := by
  have hkind := h.kind_eq
  rcases statementOrNone_cases .file hseparator with
    (hend | ⟨_, hblock⟩) | ⟨hcurly, _⟩ | hstarts
  · exact absurd hend (h.ne_endOfInput hsemi)
  · cases hblock
  · rcases statementOrNone_curly (level table n) hcurly with ⟨hvalue, hnext⟩
    rw [hkind] at hcurly
    rcases statementOrNone_curly (level table n) hcurly with ⟨hvalue', hnext'⟩
    rw [hnext, hnext', h.token_eq]
    refine ⟨_, hvalue, by rw [hvalue', h.token_eq], ?_⟩
    rcases h.advance_or_cross with hbefore | hcrossed
    · exact .inl (hbefore.report hsemi _)
    · exact .inr (hcrossed.report _)
  · have hstarts' : StartsStatement s' :=
      ⟨hkind ▸ hstarts.notEnd, hkind ▸ hstarts.notCurly, hkind ▸ hstarts.notSeparator⟩
    rcases h.statementOrError_or_cross hsemi table n with ⟨hvalue, hacross⟩
    refine ⟨_, (statementOrNone_starts _ hstarts).1, ?_, ?_⟩
    · rw [(statementOrNone_starts _ hstarts').1, hvalue]
    · rw [(statementOrNone_starts _ hstarts).2, (statementOrNone_starts _ hstarts').2]
      exact hacross

/-- A turn stays before the semicolon or crosses it with a statement, or the second script is
at its end; then the first run may as well start its turn behind the semicolon. -/
theorem turn_or_cross (h : Before semi behind 0 s s') (hsemi : semi.kind = .semicolon)
    (table : Table) (n : Nat) :
    (∃ stmt, ((level table n).turn .file s).value = some stmt ∧
      ((level table n).turn .file s').value = some stmt ∧
      (Before semi behind 0 ((level table n).turn .file s).next
          ((level table n).turn .file s').next ∨
        Crossed behind ((level table n).turn .file s).next
          ((level table n).turn .file s').next)) ∨
    ((level table n).turn .file s').value = none ∧
      ∃ t, Crossed behind t ((level table n).turn .file s').next ∧
        ((level table n).turn .file s).value = ((level table n).turn .file t).value ∧
        ((level table n).turn .file s).next = ((level table n).turn .file t).next := by
  rcases h.tokens with ⟨ts, closers, hs, hs', hpending, -⟩
  rcases turn_eq (level table n) .file s with ⟨hvalue, hnext⟩
  rcases turn_eq (level table n) .file s' with ⟨hvalue', hnext'⟩
  -- Where do the separators end that the turn starts with?
  rcases separators_endsWithin hpending with hends | ⟨_, hlength⟩
  · -- The separators end before the semicolon, and both runs read a statement there.
    left
    have hpast : Before semi behind 0 (pastSeparators s) (pastSeparators s') :=
      drop hsemi h.found hs hs' hends fun _ _ => Nat.zero_le _
    rw [hvalue, hnext, hvalue', hnext']
    exact hpast.statementOrNone_or_cross hsemi (isSeparator_pastSeparators s) table n
  · -- Only separators are left, so the semicolon is passed with them and one script ends.
    right
    have hcrossed := Crossed.of_drop h.found hs hs'
    have hended : pastSeparators s' = s'.drop (ts.length + 1) := by
      rw [pastSeparators, hs', hlength semi [] hsemi]
      rfl
    have hlater : pastSeparators s = pastSeparators (s.drop (ts.length + 1)) := by
      rw [pastSeparators, pastSeparators, State.drop_drop, hcrossed.rest, hs,
        hlength semi behind.rest hsemi]
    have hend : (s'.drop (ts.length + 1)).kind = .endOfInput := State.kind_nil hcrossed.ended
    rw [hvalue', hnext', hended, (statementOrNone_end _ (.inl hend)).1,
      (statementOrNone_end _ (.inl hend)).2]
    refine ⟨rfl, s.drop (ts.length + 1), hcrossed, ?_⟩
    rcases turn_eq (level table n) .file (s.drop (ts.length + 1)) with ⟨hvalueLater, hnextLater⟩
    rw [hvalue, hnext, hvalueLater, hnextLater, hlater]
    exact ⟨rfl, rfl⟩

end Before

namespace Level

variable {table : Table} {n : Nat}

/-- Without tokens there are no statements. -/
theorem statements_of_nil (inner : Level) {s : State} (h : s.rest = []) :
    (inner.statements .file s).value = [] ∧ (inner.statements .file s).next = s :=
  statements_end inner (.inl (State.kind_nil h))

/-- Loops whose first turns do the same do the same. -/
theorem statements_congr {s t : State} {enclosure : Enclosure}
    (hvalue : ((level table (n + 1)).turn enclosure s).value =
      ((level table (n + 1)).turn enclosure t).value)
    (hnext : ((level table (n + 1)).turn enclosure s).next =
      ((level table (n + 1)).turn enclosure t).next) :
    ((level table (n + 1)).statements enclosure s).value =
        ((level table (n + 1)).statements enclosure t).value ∧
      ((level table (n + 1)).statements enclosure s).next =
        ((level table (n + 1)).statements enclosure t).next := by
  cases hturn : ((level table (n + 1)).turn enclosure t).value with
  | none =>
    rcases many_of_none (hvalue.trans hturn) with ⟨hv, hn⟩
    rcases many_of_none hturn with ⟨hv', hn'⟩
    exact ⟨hv.trans hv'.symm, hn.trans (hnext.trans hn'.symm)⟩
  | some stmt =>
    rcases statements_of_some table n enclosure (hvalue.trans hturn) with ⟨hv, hn⟩
    rcases statements_of_some table n enclosure hturn with ⟨hv', hn'⟩
    rw [hv, hn, hv', hn', hnext]
    exact ⟨rfl, rfl⟩

end Level

/-- The loop gives the statements of the second script, and goes on behind the semicolon. -/
theorem Before.statements_across {semi : Token} {behind s s' : State}
    (h : Before semi behind 0 s s') (hsemi : semi.kind = .semicolon) (table : Table) (n : Nat) :
    ∃ t, Crossed behind t ((level table (n + 1)).statements .file s').next ∧
      ((level table (n + 1)).statements .file s).value =
        ((level table (n + 1)).statements .file s').value ++
          ((level table (n + 1)).statements .file t).value ∧
      ((level table (n + 1)).statements .file s).next =
        ((level table (n + 1)).statements .file t).next := by
  rcases h.turn_or_cross hsemi table (n + 1) with
    ⟨stmt, hvalue, hvalue', hacross⟩ | ⟨hnone, t, hcrossed, hvalue, hnext⟩
  · rcases Level.statements_of_some table n .file hvalue with ⟨hv, hn⟩
    rcases Level.statements_of_some table n .file hvalue' with ⟨hv', hn'⟩
    rw [hv, hn, hv', hn']
    rcases hacross with hbefore | hcrossed
    · -- Above the deepest level a turn reads a token, so the induction may go on from here.
      have hlt : ((level table (n + 1)).turn .file s).next.rest.length < s.rest.length := by
        rcases Level.turn_progress table (n + 1) .file s with hnone | hlt | ⟨hzero, _⟩
        · rw [hvalue] at hnone
          cases hnone
        · exact hlt
        · cases hzero
      rcases statements_across hbefore hsemi table n with ⟨t, ht, hv, hn⟩
      exact ⟨t, ht, by rw [hv, List.cons_append], hn⟩
    · -- The statement ended with the semicolon.
      rcases Level.statements_of_nil (level table (n + 1)) hcrossed.ended with ⟨hnil, hstays⟩
      rw [hnil, hstays]
      exact ⟨_, hcrossed, rfl, rfl⟩
  · rcases many_of_none hnone with ⟨hv', hn'⟩
    rcases Level.statements_congr hvalue hnext with ⟨hv, hn⟩
    refine ⟨t, ?_, ?_, hn⟩
    · unfold Level.statements
      rwa [hn']
    · have hempty : ((level table (n + 1)).statements .file s').value = [] := hv'
      rw [hempty, hv, List.nil_append]
termination_by s.rest.length

/-! ## Whole scripts -/

/-- Tokens in front of others do not change where the input ends. -/
theorem initial_append {us : List Token} (h : us ≠ []) (ts : List Token) :
    (State.initial (ts ++ us)).rest = ts ++ (State.initial us).rest ∧
      (State.initial (ts ++ us)).finish = (State.initial us).finish := by
  cases hu : us.getLast? with
  | none =>
    rw [List.getLast?_eq_none_iff] at hu
    exact absurd hu h
  | some t =>
    have hlast : (ts ++ us).getLast? = some t := by
      rw [List.getLast?_append, hu]
      rfl
    unfold State.initial
    rw [hlast, hu]
    by_cases hend : t.kind = .endOfInput
    · simp [hend, List.dropLast_append_of_ne_nil h]
    · simp [hend]

/-- Two scripts that go on differently behind a semicolon start alike. -/
theorem before_initial {ts us : List Token} {semi : Token} (hts : Nested ts)
    (hsemi : semi.kind = .semicolon) (hus : us ≠ []) :
    Before semi (.initial us) 0 (.initial (ts ++ semi :: us)) (.initial (ts ++ [semi])) := by
  rcases initial_append hus (ts ++ [semi]) with ⟨hrest, hfinish⟩
  rw [List.append_assoc, List.singleton_append] at hrest hfinish
  have hrest' : (State.initial (ts ++ [semi])).rest = ts ++ [semi] := by
    unfold State.initial
    simp [hsemi]
  rcases initial_found (ts ++ semi :: us) with ⟨hlast, hid, hdiagnostics, hstalled⟩
  rcases initial_found (ts ++ [semi]) with ⟨hlast', hid', hdiagnostics', hstalled'⟩
  constructor
  · exact ⟨hfinish, hlast.trans hlast'.symm, hid.trans hid'.symm,
      hdiagnostics.trans hdiagnostics'.symm, hstalled.trans hstalled'.symm, Nat.le_of_eq hid.symm⟩
  · refine ⟨ts, [], ?_, hrest', hts.pending, Nat.zero_le _⟩
    rw [hrest, List.append_assoc, List.singleton_append]

/-- Behind the semicolon the first run reads the statements that are read from there alone. -/
theorem Crossed.statements {us : List Token} {t t' : State}
    (h : Crossed (.initial us) t t') (table : Table) (n : Nat) :
    ∃ shift, ((level table (n + 2)).statements .file t).value =
        ({ id := (· + shift) } : Recast).stmts
          ((level table (n + 2)).statements .file (.initial us)).value ∧
      ((level table (n + 2)).statements .file t).next.diagnostics = t'.diagnostics ++
        ((level table (n + 2)).statements .file (.initial us)).next.diagnostics := by
  rcases initial_found us with ⟨hlast, hid, hdiagnostics, _⟩
  have hpositive := h.found.positive
  -- The place where the semicolon ended is forgotten, so both runs start from the same place.
  have hbehind : Behind t.diagnostics (t.nextId - 1) { t with lastEnd := 0 } (.initial us) := by
    refine ⟨h.rest, h.found.finish, hlast.symm, ?_, ?_⟩
    · rw [hid]
      show t.nextId = 1 + (t.nextId - 1)
      omega
    · rw [hdiagnostics, Array.append_empty]
  have sim := Behind.simulation table t.diagnostics (t.nextId - 1)
  obtain ⟨hvalue, hnext⟩ := sim.agree_statements (sim.level (n + 2)) (k := 0) trivial hbehind
    .file fun _ {_ _} hrel _ => hrel.advance
  rcases Level.statements_forgets table n t 0 with ⟨hsame, hreports⟩
  refine ⟨t.nextId - 1, ?_, ?_⟩
  · rw [← hsame, hvalue]
  · rw [← hreports, hnext.diagnostics, h.found.diagnostics]

/-- Errors do not spread over a semicolon. What stands in front of it is read as if it stood
alone, if its brackets are properly nested, however malformed it is otherwise; and what stands
behind it is read as if it stood alone too, except that its blocks are numbered further on. -/
theorem parse_append_semicolon (table : Table) {ts : List Token} (hts : Nested ts) {semi : Token}
    (hsemi : semi.kind = .semicolon) (us : List Token) :
    ∃ shift, (parse table (ts ++ semi :: us)).program.statements =
        (parse table (ts ++ [semi])).program.statements ++
          ({ id := (· + shift) } : Recast).stmts (parse table us).program.statements ∧
      (parse table (ts ++ semi :: us)).diagnostics =
        (parse table (ts ++ [semi])).diagnostics ++ (parse table us).diagnostics := by
  -- Without a second script there is no state behind the semicolon to compare with.
  by_cases hus : us = []
  · subst hus
    rcases Level.statements_of_nil (level table maxNesting) (s := .initial []) rfl with
      ⟨hnil, hstays⟩
    refine ⟨0, ?_, ?_⟩
    · show _ = _ ++ Recast.stmts _ ((level table maxNesting).statements .file (.initial [])).value
      rw [hnil, Recast.stmts, List.append_nil]
    · show _ = _ ++ ((level table maxNesting).statements .file
        (.initial [])).next.diagnostics.toList
      rw [hstays]
      exact (List.append_nil _).symm
  · rcases (before_initial hts hsemi hus).statements_across hsemi table 127 with
      ⟨t, hcrossed, hvalue, hnext⟩
    rcases hcrossed.statements table 126 with ⟨shift, hstatements, hdiagnostics⟩
    refine ⟨shift, ?_, ?_⟩
    · show ((level table maxNesting).statements .file (.initial (ts ++ semi :: us))).value = _
      exact hvalue.trans (congrArg (_ ++ ·) hstatements)
    · show ((level table maxNesting).statements .file
        (.initial (ts ++ semi :: us))).next.diagnostics.toList = _
      have hreports := congrArg State.diagnostics hnext
      rw [hdiagnostics] at hreports
      exact (congrArg Array.toList hreports).trans (Array.toList_append ..)

/-- A parenthesis without an operand is an error of the first statement only. -/
theorem parse_append_semicolon_malformed :
    ∃ shift,
      (parse .empty [⟨.openParen, "(", ⟨0, 1⟩⟩, ⟨.closeParen, ")", ⟨1, 2⟩⟩,
          ⟨.semicolon, ";", ⟨2, 3⟩⟩, ⟨.number, "2", ⟨3, 4⟩⟩]).program.statements =
        (parse .empty [⟨.openParen, "(", ⟨0, 1⟩⟩, ⟨.closeParen, ")", ⟨1, 2⟩⟩,
          ⟨.semicolon, ";", ⟨2, 3⟩⟩]).program.statements ++
          ({ id := (· + shift) } : Recast).stmts
            (parse .empty [⟨.number, "2", ⟨3, 4⟩⟩]).program.statements ∧
      (parse .empty [⟨.openParen, "(", ⟨0, 1⟩⟩, ⟨.closeParen, ")", ⟨1, 2⟩⟩,
          ⟨.semicolon, ";", ⟨2, 3⟩⟩, ⟨.number, "2", ⟨3, 4⟩⟩]).diagnostics =
        (parse .empty [⟨.openParen, "(", ⟨0, 1⟩⟩, ⟨.closeParen, ")", ⟨1, 2⟩⟩,
          ⟨.semicolon, ";", ⟨2, 3⟩⟩]).diagnostics ++
          (parse .empty [⟨.number, "2", ⟨3, 4⟩⟩]).diagnostics :=
  parse_append_semicolon .empty
    (@Nested.group ⟨.openParen, "(", ⟨0, 1⟩⟩ ⟨.closeParen, ")", ⟨1, 2⟩⟩ [] [] rfl .nil .nil) rfl
    [⟨.number, "2", ⟨3, 4⟩⟩]

end Sqf.Parse
