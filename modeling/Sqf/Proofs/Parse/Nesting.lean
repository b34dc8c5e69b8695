import Sqf.Proofs.Parse.Steps

/-!
# Brackets that are properly nested

`Nested` says that the brackets of some tokens are closed in the reverse order in
which they are opened, each by a closer of its own sort. An end piece of such
tokens closes what was opened before it; `Pending` gives these closers in order.

The skips of the recovery count brackets without telling their sorts apart. On
an end piece of nested tokens this makes no difference: none of them goes beyond
a closing brace that is pending, or beyond a semicolon behind all of the tokens.
-/

namespace Sqf

namespace Kind

/-- The closer of an opener. -/
def closer? : Kind → Option Kind
  | openParen => some closeParen
  | openBracket => some closeBracket
  | openCurly => some closeCurly
  | _ => none

/-- An opener is what has a closer of its own. -/
theorem opensGroup_iff (k : Kind) : k.opensGroup = true ↔ ∃ c, k.closer? = some c := by
  cases k <;> simp [opensGroup, closer?]

/-- Neither a bracket nor the end of input. -/
def isInner (k : Kind) : Bool :=
  !k.opensGroup && !k.closesGroup && k != endOfInput

end Kind

namespace Parse

/-- Tokens of a text whose brackets are properly nested. The end of input is not among them: it
is no token of a text, but what stands behind it. -/
inductive Nested : List Token → Prop
  | nil : Nested []
  | inner {t : Token} {ts : List Token} (h : t.kind.isInner = true) (others : Nested ts) :
    Nested (t :: ts)
  | group {first last : Token} {ts us : List Token} (h : first.kind.closer? = some last.kind)
    (inside : Nested ts) (others : Nested us) : Nested (first :: ts ++ last :: us)

/-- The tokens close all brackets that they open, and these closers besides, in this order. -/
inductive Pending : List Token → List Kind → Prop
  | nil : Pending [] []
  | inner {t : Token} {ts : List Token} {closers : List Kind} (h : t.kind.isInner = true)
    (others : Pending ts closers) : Pending (t :: ts) closers
  | opener {t : Token} {ts : List Token} {c : Kind} {closers : List Kind}
    (h : t.kind.closer? = some c) (others : Pending ts (c :: closers)) :
    Pending (t :: ts) closers
  | closer {t : Token} {ts : List Token} {closers : List Kind} (h : t.kind.closesGroup = true)
    (others : Pending ts closers) : Pending (t :: ts) (t.kind :: closers)

/-- Nested tokens leave pending what is pending behind them. -/
theorem Nested.pending_append {ts us : List Token} {closers : List Kind} (h : Nested ts)
    (hpending : Pending us closers) : Pending (ts ++ us) closers := by
  induction h generalizing us closers with
  | nil => exact hpending
  | inner h _ ih => exact .inner h (ih hpending)
  | @group first last ts vs h _ _ ihInside ihOthers =>
    have hclose : last.kind.closesGroup = true := by
      cases hfirst : first.kind <;> simp_all [Kind.closer?, Kind.closesGroup]
      all_goals simp [← h]
    have hrest : Pending (last :: (vs ++ us)) (last.kind :: closers) :=
      .closer hclose (ihOthers hpending)
    have hgroup := Pending.opener h (ihInside hrest)
    simpa using hgroup

/-- Nested tokens leave nothing pending. -/
theorem Nested.pending {ts : List Token} (h : Nested ts) : Pending ts [] := by
  have happend := h.pending_append .nil
  rwa [List.append_nil] at happend

/-! ## Skips -/

/-- A skip over the tokens, with a semicolon behind them, ends before the semicolon, wherever
the text goes on behind it, and this holds of the closers that are pending there. -/
def EndsWithin (length : List Token → Nat) (ts : List Token) (P : List Kind → Prop) : Prop :=
  ∃ m ≤ ts.length, (∀ semi us, semi.kind = .semicolon → length (ts ++ semi :: us) = m) ∧
    ∃ closers, Pending (ts.drop m) closers ∧ P closers

variable {length length' : List Token → Nat} {t : Token} {ts : List Token} {closers : List Kind}
  {P : List Kind → Prop}

/-- A run of no tokens ends within. -/
theorem EndsWithin.here (h : ∀ semi us, semi.kind = .semicolon → length (ts ++ semi :: us) = 0)
    (hpending : Pending ts closers) (hP : P closers) : EndsWithin length ts P :=
  ⟨0, Nat.zero_le _, h, closers, hpending, hP⟩

/-- So does a run of one token. -/
theorem EndsWithin.next (h : ∀ us, length (t :: us) = 1) (hpending : Pending ts closers)
    (hP : P closers) : EndsWithin length (t :: ts) P :=
  ⟨1, Nat.le_add_left _ _, fun _ _ _ => h _, closers, hpending, hP⟩

/-- So does a run of one token more than one that ends within. -/
theorem EndsWithin.cons (h : EndsWithin length ts P)
    (hstep : ∀ us, length' (t :: us) = length us + 1) : EndsWithin length' (t :: ts) P := by
  rcases h with ⟨m, hm, hlength, hrest⟩
  refine ⟨m + 1, Nat.succ_le_succ hm, ?_, hrest⟩
  intro semi us hsemi
  rw [List.cons_append, hstep, hlength semi us hsemi]

section Step

variable {k : Kind}

/-- A token is either a bracket, or the end, or one of all others. -/
theorem isInner_iff :
    k.isInner = true ↔ k.opensGroup = false ∧ k.closesGroup = false ∧ k ≠ .endOfInput := by
  simp [Kind.isInner, and_assoc]

theorem ne_endOfInput_of_closes (h : k.closesGroup = true) : k ≠ .endOfInput := by
  rintro rfl
  cases h

theorem not_separator_of_closes (h : k.closesGroup = true) : k.isSeparator = false := by
  cases k <;> simp_all [Kind.closesGroup, Kind.isSeparator]

theorem not_opens_of_closes (h : k.closesGroup = true) : k.opensGroup = false := by
  cases k <;> simp_all [Kind.closesGroup, Kind.opensGroup]

theorem not_separator_of_opens (h : k.opensGroup = true) : k.isSeparator = false := by
  cases k <;> simp_all [Kind.opensGroup, Kind.isSeparator]

theorem not_closes_of_opens (h : k.opensGroup = true) : k.closesGroup = false := by
  cases k <;> simp_all [Kind.opensGroup, Kind.closesGroup]

theorem ne_endOfInput_of_opens (h : k.opensGroup = true) : k ≠ .endOfInput := by
  rintro rfl
  cases h

end Step

/-- The skip out of a region that is nested too deeply ends before the closers that were
pending when it started. `opened` are the closers of the groups it has opened. -/
theorem nestedLength_endsWithin {opened pending : List Kind} (h : Pending ts closers)
    (hclosers : closers = opened ++ pending) :
    EndsWithin (nestedLength opened.length) ts (· = pending) := by
  induction h generalizing opened with
  | nil =>
    rcases List.append_eq_nil_iff.1 hclosers.symm with ⟨rfl, rfl⟩
    refine .here ?_ .nil rfl
    intro semi us hsemi
    simp [nestedLength, hsemi, Kind.isSeparator]
  | @inner t ts closers h others ih =>
    rcases isInner_iff.1 h with ⟨hopens, hcloses, hend⟩
    -- A separator stops the skip only outside of the groups that it has opened.
    by_cases hstop : opened = [] ∧ t.kind.isSeparator = true
    · rcases hstop with ⟨rfl, hseparator⟩
      refine .here ?_ (.inner h others) hclosers
      intro semi us _
      simp [nestedLength, hend, hseparator]
    · refine (ih hclosers).cons ?_
      intro us
      rw [nestedLength]
      simp_all
  | @opener t ts c closers h others ih =>
    have hopens := (Kind.opensGroup_iff t.kind).2 ⟨c, h⟩
    have hcloses := not_closes_of_opens hopens
    have hseparator := not_separator_of_opens hopens
    have hend := ne_endOfInput_of_opens hopens
    -- The closer of this group comes before the pending ones, and the skip has opened it.
    have hinside : EndsWithin (nestedLength (c :: opened).length) ts (· = pending) :=
      ih (by rw [hclosers]; rfl)
    refine hinside.cons ?_
    intro us
    simp [nestedLength, hopens, hcloses, hseparator, hend]
  | @closer t ts closers h others ih =>
    have hopens := not_opens_of_closes h
    have hend := ne_endOfInput_of_closes h
    -- With no group of its own open, the skip stops before the closer, which is pending.
    cases opened with
    | nil =>
      refine .here ?_ (.closer h others) hclosers
      intro semi us _
      simp [nestedLength, hend, h]
    | cons c opened =>
      rcases List.cons.inj hclosers with ⟨-, htail⟩
      refine (ih htail).cons ?_
      intro us
      simp [nestedLength, hend, h, hopens]

/-- The skip to a keyword passes no pending brace. -/
theorem untilLength_endsWithin (stops : List Kind) {opened pending : List Kind}
    (h : Pending ts closers) (hclosers : closers = opened ++ pending) :
    EndsWithin (untilLength stops opened.length) ts
      fun left => left.count .closeCurly = pending.count .closeCurly := by
  induction h generalizing opened pending with
  | nil =>
    rcases List.append_eq_nil_iff.1 hclosers.symm with ⟨rfl, rfl⟩
    refine .here ?_ .nil rfl
    intro semi us hsemi
    simp [untilLength, hsemi, Kind.isSeparator]
  | @inner t ts closers h others ih =>
    rcases isInner_iff.1 h with ⟨hopens, hcloses, hend⟩
    -- Within groups that the skip has opened, the kinds to stop at do not count.
    by_cases hstop : (opened.length = 0 && (stops.contains t.kind || t.kind.isSeparator ||
        t.kind == .closeCurly)) = true
    · obtain rfl : opened = [] := by simp_all
      refine .here ?_ (.inner h others) (by rw [hclosers]; rfl)
      intro semi us _
      rw [List.cons_append, untilLength, if_neg hend, if_pos hstop]
    · refine (ih hclosers).cons ?_
      intro us
      rw [untilLength, if_neg hend, if_neg hstop]
      simp [hopens, hcloses]
  | @opener t ts c closers h others ih =>
    have hopens := (Kind.opensGroup_iff t.kind).2 ⟨c, h⟩
    have hend := ne_endOfInput_of_opens hopens
    by_cases hstop : (opened.length = 0 && (stops.contains t.kind || t.kind.isSeparator ||
        t.kind == .closeCurly)) = true
    · obtain rfl : opened = [] := by simp_all
      refine .here ?_ (.opener h others) (by rw [hclosers]; rfl)
      intro semi us _
      rw [List.cons_append, untilLength, if_neg hend, if_pos hstop]
    · have hinside : EndsWithin (untilLength stops (c :: opened).length) ts
          fun left => left.count .closeCurly = pending.count .closeCurly :=
        ih (by rw [hclosers]; rfl)
      refine hinside.cons ?_
      intro us
      rw [untilLength, if_neg hend, if_neg hstop, if_pos hopens, List.length_cons]
  | @closer t ts closers h others ih =>
    have hopens := not_opens_of_closes h
    have hend := ne_endOfInput_of_closes h
    by_cases hstop : (opened.length = 0 && (stops.contains t.kind || t.kind.isSeparator ||
        t.kind == .closeCurly)) = true
    · obtain rfl : opened = [] := by simp_all
      refine .here ?_ (.closer h others) (by rw [hclosers]; rfl)
      intro semi us _
      rw [List.cons_append, untilLength, if_neg hend, if_pos hstop]
    · cases opened with
      | nil =>
        -- A closing brace would have stopped the skip, so one of the other closers is passed.
        have hcurly : t.kind ≠ .closeCurly := by
          intro hcurly
          simp [hcurly] at hstop
        obtain rfl : pending = t.kind :: closers := hclosers.symm
        have hinside : EndsWithin (untilLength stops ([] : List Kind).length) ts
            fun left => left.count .closeCurly = closers.count .closeCurly :=
          ih rfl
        rw [List.count_cons_of_ne hcurly]
        refine hinside.cons ?_
        intro us
        rw [untilLength, if_neg hend, if_neg hstop]
        simp [hopens, h]
      | cons c opened =>
        rcases List.cons.inj hclosers with ⟨-, htail⟩
        refine (ih htail).cons ?_
        intro us
        rw [untilLength, if_neg hend, if_neg hstop]
        simp [hopens, h]

/-- The end of a statement comes before a pending brace; if none is pending, it may be the
semicolon behind the tokens. `curly` braces are open. -/
def StatementEnds (curly groups pending : Nat) (ts : List Token) : Prop :=
  EndsWithin (statementLength curly groups) ts (fun left => left.count .closeCurly = pending) ∨
    pending = 0 ∧ ∀ semi us, semi.kind = .semicolon →
      statementLength curly groups (ts ++ semi :: us) = ts.length + 1

theorem StatementEnds.cons {curly curly' groups groups' pending : Nat}
    (h : StatementEnds curly groups pending ts)
    (hstep : ∀ us, statementLength curly' groups' (t :: us) = statementLength curly groups us + 1) :
    StatementEnds curly' groups' pending (t :: ts) := by
  rcases h with hwithin | ⟨hzero, hlength⟩
  · exact .inl (hwithin.cons hstep)
  · refine .inr ⟨hzero, ?_⟩
    intro semi us hsemi
    rw [List.cons_append, hstep, hlength semi us hsemi, List.length_cons]

/-- A statement that is skipped ends within the tokens, or with the semicolon behind them. -/
theorem statementEnds {curly pending : Nat} (groups : Nat) (h : Pending ts closers)
    (hclosers : closers.count .closeCurly = curly + pending) :
    StatementEnds curly groups pending ts := by
  induction h generalizing curly groups with
  | nil =>
    have hzero : curly + pending = 0 := hclosers.symm
    rcases Nat.add_eq_zero_iff.1 hzero with ⟨rfl, rfl⟩
    refine .inr ⟨rfl, ?_⟩
    intro semi us hsemi
    simp [statementLength, hsemi]
  | @inner t ts closers h others ih =>
    -- A semicolon ends the statement outside of braces, a comma only outside of all brackets.
    by_cases hsemi : t.kind = .semicolon ∧ curly = 0
    · rcases hsemi with ⟨hkind, rfl⟩
      refine .inl (.next ?_ others (by omega))
      intro us
      simp [statementLength, hkind]
    by_cases hcomma : t.kind = .comma ∧ curly = 0 ∧ groups = 0
    · rcases hcomma with ⟨hkind, rfl, rfl⟩
      refine .inl (.next ?_ others (by omega))
      intro us
      simp [statementLength, hkind]
    · refine (ih groups hclosers).cons ?_
      intro us
      rw [statementLength]
      split <;> simp_all [Kind.isInner, Kind.opensGroup, Kind.closesGroup]
  | @opener t ts c closers h others ih =>
    -- Braces are counted apart; all other brackets matter to commas alone.
    by_cases hcurly : t.kind = .openCurly
    · obtain rfl : c = .closeCurly := by simpa [hcurly, Kind.closer?] using h.symm
      have hinside : StatementEnds (curly + 1) groups pending ts := by
        refine ih groups ?_
        rw [List.count_cons_self]
        omega
      refine hinside.cons ?_
      intro us
      simp [statementLength, hcurly]
    · have hc : c ≠ .closeCurly := by
        rintro rfl
        cases hk : t.kind <;> simp_all [Kind.closer?]
      have hinside : StatementEnds curly (groups + 1) pending ts := by
        refine ih (groups + 1) ?_
        rw [List.count_cons_of_ne hc, hclosers]
      refine hinside.cons ?_
      intro us
      cases hk : t.kind <;> simp_all [Kind.closer?, statementLength]
  | @closer t ts closers h others ih =>
    by_cases hcurly : t.kind = .closeCurly
    · rw [hcurly, List.count_cons_self] at hclosers
      cases curly with
      | zero =>
        -- The statement has no brace open, so this one closes the block it stands in.
        refine .inl (.here ?_ (.closer h others) ?_)
        · intro semi us _
          simp [statementLength, hcurly]
        · rw [hcurly, List.count_cons_self]
          omega
      | succ curly =>
        have hinside : StatementEnds curly groups pending ts := ih groups (by omega)
        refine hinside.cons ?_
        intro us
        simp [statementLength, hcurly]
    · rw [List.count_cons_of_ne hcurly] at hclosers
      refine (ih (groups - 1) hclosers).cons ?_
      intro us
      cases hk : t.kind <;> simp_all [Kind.closesGroup, statementLength]

/-- Separators are passed up to a token that is none; if there is none of these, the semicolon
behind the tokens is passed too, and the separators behind it. -/
theorem separators_endsWithin (h : Pending ts closers) :
    EndsWithin Level.separators ts (· = closers) ∨
      closers = [] ∧ ∀ semi us, semi.kind = .semicolon →
        Level.separators (ts ++ semi :: us) = ts.length + 1 + Level.separators us := by
  have hother : ∀ {t : Token} {us : List Token}, t.kind.isSeparator = false →
      Level.separators (t :: us) = 0 := by
    intro t us ht
    simp [Level.separators, ht]
  have hcons : ∀ {t : Token} {us : List Token}, t.kind.isSeparator = true →
      Level.separators (t :: us) = Level.separators us + 1 := by
    intro t us ht
    simp [Level.separators, ht]
  -- Induction on what is pending: a run of separators can only go on over tokens that are no
  -- brackets.
  induction h with
  | nil =>
    refine .inr ⟨rfl, ?_⟩
    intro semi us hsemi
    rw [List.nil_append, hcons (by rw [hsemi]; rfl), List.length_nil]
    omega
  | @inner t ts closers h others ih =>
    by_cases hseparator : t.kind.isSeparator = true
    · rcases ih with hwithin | ⟨hnil, hlength⟩
      · exact .inl (hwithin.cons fun us => hcons hseparator)
      · refine .inr ⟨hnil, ?_⟩
        intro semi us hsemi
        rw [List.cons_append, hcons hseparator, hlength semi us hsemi, List.length_cons]
        omega
    · -- The first token that is no separator ends the run.
      refine .inl (.here ?_ (.inner h others) rfl)
      intro semi us _
      exact hother (by simpa using hseparator)
  | @opener t ts c closers h others ih =>
    refine .inl (.here ?_ (.opener h others) rfl)
    intro semi us _
    exact hother (not_separator_of_opens ((Kind.opensGroup_iff _).2 ⟨c, h⟩))
  | @closer t ts closers h others ih =>
    refine .inl (.here ?_ (.closer h others) rfl)
    intro semi us _
    exact hother (not_separator_of_closes h)

/-- Whether an operand follows is settled before a semicolon. -/
theorem startsOperand_append (table : Table) {semi : Token} (hsemi : semi.kind = .semicolon)
    (ts us : List Token) :
    table.startsOperand (ts ++ semi :: us) = table.startsOperand (ts ++ [semi]) := by
  induction ts with
  | nil => simp [Table.startsOperand, hsemi]
  | cons t ts ih =>
    rw [List.cons_append, List.cons_append, Table.startsOperand, Table.startsOperand, ih]

end Parse

end Sqf
