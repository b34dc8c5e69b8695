import Sqf.Proofs.Parse.SideBySide

/-!
# Reading a script comes to an end

Every turn of the loop over statements reads at least one token or is the last
one, with a single exception: at the deepest level nothing is read any more, and
a statement that starts with `)` or `]` is passed over without reading it. The
loop is cut off there, and the state says so (`State.stalled`). Where that does
not happen, the loops run to their end by themselves (`Loop`), and a script is
read to the end of its input.

The loops over the elements of an array, over operators and over the tokens to
be passed over go on only behind a token that they have read.
-/

namespace Sqf.Parse

/-! ## Parsers that read a token -/

/-- The parser reads at least one token. -/
def Shortens (p : Parse α) (s : State) : Prop := (p s).next.rest.length < s.rest.length

/-- The parser reads at least one token, unless it fails. -/
def ShortensOrFails (x : Attempt α) (s : State) : Prop :=
  Attempt.Ensures x (fun _ t => t.rest.length < s.rest.length) s

/-- Reading a token shortens the input. -/
theorem advance_shortens {s : State} (h : s.kind ≠ .endOfInput) : Shortens advance s := by
  have hlength := length_advance h
  unfold Shortens
  omega

theorem Shortens.kind_bind {f : Kind → Parse α} {s : State} (h : Shortens (f s.kind) s) :
    Shortens (kind >>= f) s := h

/-- What follows a parser that has read something can only read more. -/
theorem Shortens.bind {p : Parse α} {s : State} (h : Shortens p s) (f : α → Parse β) :
    Shortens (p >>= f) s := by
  have hle := length_next_le (f (p s).value) (p s).next
  unfold Shortens at h ⊢
  rw [next_bind]
  omega

/-- The same before a parser that may fail. -/
theorem Shortens.lift_bind {p : Parse α} {s : State} (h : Shortens p s) (f : α → Attempt β) :
    ShortensOrFails (liftM p >>= f) s := by
  intro b _
  have hle := length_next_le (f (p s).value).run (p s).next
  unfold Shortens at h
  rw [Attempt.next_lift_bind]
  omega

/-- The same for two parsers that may fail. -/
theorem ShortensOrFails.bind {x : Attempt α} {s : State} (h : ShortensOrFails x s)
    (f : α → Attempt β) : ShortensOrFails (x >>= f) s := by
  intro b hb
  rcases Attempt.of_bind_ok hb with ⟨a, ha, _⟩
  have hlt := h a ha
  have hle := length_next_le (f a).run (x.run s).next
  rw [(Attempt.bind_ok ha).2]
  omega

theorem shortensOrFails_kind_bind {f : Kind → Attempt α} {s : State}
    (h : ShortensOrFails (f s.kind) s) : ShortensOrFails (liftM kind >>= f) s := h

theorem shortensOrFails_state_bind {f : State → Attempt α} {s : State}
    (h : ShortensOrFails (f s) s) : ShortensOrFails (liftM state >>= f) s := h

/-- A failure need not read anything. -/
theorem shortensOrFails_throw (d : Diagnostic) (s : State) :
    ShortensOrFails (throw d : Attempt α) s := by
  intro a h
  cases h

namespace Level

variable {inner : Level} {table : Table} {s : State}

/-- Whatever starts a construct is a keyword, and it is read. -/
theorem control_shortens (h : startsControl s.kind = true) : Shortens inner.control s := by
  have hne : s.kind ≠ .endOfInput := by
    intro he
    simp [he, startsControl] at h
  have hadvance := advance_shortens hne
  unfold control
  apply Shortens.kind_bind
  split
  all_goals exact hadvance.bind _

/-- A number is read, or it is malformed. -/
theorem numberLiteral_shortens (hk : s.kind ≠ .endOfInput) :
    ShortensOrFails numberLiteral s := by
  unfold numberLiteral
  apply shortensOrFails_state_bind
  cases hread : Numeral.read? s.token.value with
  | none =>
    simp only [hread]
    exact shortensOrFails_throw _ _
  | some value =>
    simp only [hread]
    exact (advance_shortens hk).lift_bind _

/-- Blocks take a token at least. -/
def BlockShortens (inner : Level) : Prop := ∀ s, s.kind = .openCurly → Shortens inner.block s

/-- Every operand that is read has a first token. -/
theorem operand_shortens (hblock : inner.BlockShortens) :
    ShortensOrFails (inner.operand table) s := by
  unfold operand
  apply shortensOrFails_kind_bind
  split
  case h_1 hk => exact numberLiteral_shortens (by simp [hk])
  case h_6 hk => exact (hblock s hk).lift_bind _
  case h_11 =>
    split
    · next hc => exact (control_shortens hc).lift_bind _
    · intro e h
      cases h
  all_goals
    next hk => exact (advance_shortens (by simp [hk])).lift_bind _

/-- So has every expression, and its operators come behind. -/
theorem expression_shortens (hblock : inner.BlockShortens) (tier : Tier) :
    ShortensOrFails (inner.expression table tier) s :=
  (operand_shortens hblock).bind _

/-- What is nested starts with a token that is no closer and no separator. -/
theorem nestedLength_pos {t : Token} (ts : List Token) (hend : t.kind ≠ .endOfInput)
    (hcloser : t.kind.closesGroup = false) (hseparator : t.kind.isSeparator = false) :
    0 < nestedLength 0 (t :: ts) := by
  rw [nestedLength, if_neg hend]
  simp only [hcloser, hseparator, Bool.or_self, Bool.and_false, Bool.false_eq_true, ↓reduceIte]
  split <;> omega

/-- What is nested too deep is dropped with its first token, unless that ends it. -/
theorem skipNested_shortens (hend : s.kind ≠ .endOfInput) (hcloser : s.kind.closesGroup = false)
    (hseparator : s.kind.isSeparator = false) : Shortens skipNested s := by
  rcases State.exists_cons hend with ⟨ts, hts⟩
  have hpos := nestedLength_pos ts hend hcloser hseparator
  show (s.rest.drop (nestedLength 0 s.rest)).length < s.rest.length
  rw [hts, List.length_drop, List.length_cons]
  omega

/-- A block is read with its opening brace, at any level. -/
theorem level_blockShortens (table : Table) (n : Nat) : (level table n).BlockShortens := by
  intro s h
  cases n with
  | zero =>
    exact skipNested_shortens (s := s) (by simp [h]) (by simp [h, Kind.closesGroup])
      (by simp [h, Kind.isSeparator])
  | succ n => exact (advance_shortens (by simp [h])).bind _

end Level

/-! ## Turns of the loop over statements -/

/-- Where no more may be nested, a statement that starts with one of these two closers is
passed over without reading it. -/
def Stuck (n : Nat) (s : State) : Prop :=
  n = 0 ∧ (s.kind = .closeParen ∨ s.kind = .closeBracket)

/-- Whether the reading is stuck depends on what is left to read. -/
theorem Stuck.congr {n : Nat} {s t : State} (h : Stuck n s) (hrest : t.rest = s.rest) :
    Stuck n t := by
  rcases h with ⟨hzero, hcloser⟩
  have hne : s.kind ≠ .endOfInput := by rcases hcloser with h | h <;> simp [h]
  refine ⟨hzero, ?_⟩
  rwa [State.kind_congr hrest hne]

namespace Level

variable {table : Table} {n : Nat} {s : State}

/-- An expression at a level reads something, fails or is stuck. -/
theorem level_expr_shortens (table : Table) (n : Nat) (h : StartsStatement s) (tier : Tier) :
    ShortensOrFails ((level table n).expr tier) s ∨ Stuck n s := by
  cases n with
  | succ n => exact .inl (expression_shortens (level_blockShortens table n) tier)
  | zero =>
    by_cases hcloser : s.kind.closesGroup = true
    · have hcurly := h.notCurly
      right
      refine ⟨rfl, ?_⟩
      unfold Kind.closesGroup at hcloser
      split at hcloser <;> simp_all
    · left
      exact (skipNested_shortens h.notEnd (by simpa using hcloser) h.notSeparator).lift_bind _

/-- So does a statement. -/
theorem statement_shortens (table : Table) (n : Nat) (h : StartsStatement s) :
    ShortensOrFails (level table n).statement s ∨ Stuck n s := by
  unfold statement
  rcases level_expr_shortens table n h .lowest with hexpr | hstuck
  · left
    apply shortensOrFails_state_bind
    split
    · exact (advance_shortens h.notEnd).lift_bind _
    · split
      · next hcontrol => exact (control_shortens hcontrol).lift_bind _
      · split
        · exact (advance_shortens h.notEnd).lift_bind _
        · exact hexpr.bind _
  · exact .inr hstuck

/-- What is passed over of a statement starts with a token that does not close the block. -/
theorem statementLength_pos {t : Token} (ts : List Token) (groups : Nat)
    (hend : t.kind ≠ .endOfInput) (hcurly : t.kind ≠ .closeCurly) :
    0 < statementLength 0 groups (t :: ts) := by
  rw [statementLength]
  split <;> first | contradiction | omega | (split <;> omega)

/-- What is skipped after a failure has at least the token that the statement started with. -/
theorem synchronize_shortens (h : StartsStatement s) {t : State} (ht : t.rest <:+ s.rest) :
    (synchronize s t).next.rest.length < s.rest.length := by
  have hle := ht.length_le
  have hnext : (synchronize s t).next.rest =
      t.rest.drop (statementLength 0 (openGroups (t.readSince s)) t.rest) := rfl
  -- Either the statement has read something before it failed, or its first token is passed over.
  rcases Nat.lt_or_eq_of_le hle with hlt | heq
  · rw [hnext, List.length_drop]
    omega
  · rcases State.exists_cons h.notEnd with ⟨ts, hts⟩
    have hpos := statementLength_pos ts (openGroups (t.readSince s)) h.notEnd h.notCurly
    rw [hnext, ht.eq_of_length heq, hts, List.length_drop, List.length_cons]
    omega

/-- A statement or what is skipped for it has at least one token, unless the reading is stuck. -/
theorem statementOrError_shortens (table : Table) (n : Nat) (h : StartsStatement s) :
    Shortens (level table n).statementOrError s ∨ Stuck n s := by
  rcases statement_shortens table n h with hstatement | hstuck
  · left
    unfold Shortens
    cases hvalue : ((level table n).statement.run s).value with
    | ok stmt =>
      have hlt := hstatement stmt hvalue
      have hle := length_next_le separator ((level table n).statement.run s).next
      rw [(statementOrError_ok hvalue).2]
      exact Nat.lt_of_le_of_lt hle hlt
    | error d =>
      rw [(statementOrError_error hvalue).2]
      exact synchronize_shortens h ((level table n).statement.run s).suffix
  · exact .inr hstuck

/-- A turn ends the loop, or it reads a token, or nothing may be nested and a closer stands
there. -/
theorem turn_progress (table : Table) (n : Nat) (enclosure : Enclosure) (s : State) :
    ((level table n).turn enclosure s).value = none ∨
      Shortens ((level table n).turn enclosure) s ∨ Stuck n s := by
  rcases turn_eq (level table n) enclosure s with ⟨hvalue, hnext⟩
  have hle : (pastSeparators s).rest.length ≤ s.rest.length := length_next_le (skip _) s
  unfold Shortens
  rw [hvalue, hnext]
  rcases statementOrNone_cases enclosure (isSeparator_pastSeparators s) with
    hend | ⟨hcurly, rfl⟩ | hstarts
  · exact .inl (statementOrNone_end _ hend).1
  · right; left
    have hread := length_advance (s := pastSeparators s) (by simp [hcurly])
    rw [(statementOrNone_curly _ hcurly).2]
    show (advance (pastSeparators s)).next.rest.length < s.rest.length
    omega
  · right
    rw [(statementOrNone_starts _ hstarts).2]
    rcases statementOrError_shortens table n hstarts with hlt | hstuck
    · left
      unfold Shortens at hlt
      omega
    · -- Separators in front of a closer count as progress, so the loop is stuck one turn later.
      rcases Nat.lt_or_eq_of_le hle with hlt | heq
      · left
        have hle' := length_next_le (level table n).statementOrError (pastSeparators s)
        omega
      · right
        rwa [pastSeparators_eq_self heq] at hstuck

/-- Where more may be nested, every turn that is not the last one reads a token. -/
theorem statements_of_some (table : Table) (n : Nat) (enclosure : Enclosure) {stmt : Stmt}
    (h : ((level table (n + 1)).turn enclosure s).value = some stmt) :
    ((level table (n + 1)).statements enclosure s).value =
        stmt :: ((level table (n + 1)).statements enclosure
          ((level table (n + 1)).turn enclosure s).next).value ∧
      ((level table (n + 1)).statements enclosure s).next =
        ((level table (n + 1)).statements enclosure
          ((level table (n + 1)).turn enclosure s).next).next := by
  rcases turn_progress table (n + 1) enclosure s with hnone | hlt | ⟨hzero, _⟩
  · rw [h] at hnone
    cases hnone
  · exact many_of_some h hlt
  · cases hzero

/-- A closer is left by what passes over a nested region. -/
theorem nestedLength_closer {t : Token} (ts : List Token) (h : t.kind.closesGroup = true) :
    nestedLength 0 (t :: ts) = 0 := by
  rw [nestedLength]
  split <;> simp [h]

/-- Where the loop is stuck, a statement is made of nothing, and the closer is reported. -/
theorem statementOrError_of_stuck (h : Stuck n s) :
    ((level table n).statementOrError s).next.rest = s.rest := by
  rcases h with ⟨rfl, hcloser⟩
  have hne : s.kind ≠ .endOfInput := by rcases hcloser with h | h <;> simp [h]
  have hnested : nestedLength 0 s.rest = 0 := by
    rcases State.exists_cons hne with ⟨ts, hts⟩
    rw [hts]
    refine nestedLength_closer ts ?_
    show s.kind.closesGroup = true
    rcases hcloser with h | h <;> simp [h, Kind.closesGroup]
  have hskip : (skipNested s).next.rest = s.rest := by
    show s.rest.drop (nestedLength 0 s.rest) = s.rest
    rw [hnested, List.drop_zero]
  -- At the deepest level the statement is the placeholder, whichever closer stands there.
  have hstatement : ((level table 0).statement.run s).value =
        .ok (.expression (.error (skipNested s).value)) ∧
      ((level table 0).statement.run s).next = (skipNested s).next := by
    unfold statement
    rw [Attempt.value_lift_bind, Attempt.next_lift_bind, value_state, next_state]
    rcases hcloser with h | h <;> simp only [h, startsControl] <;> exact ⟨rfl, rfl⟩
  have hkind : (skipNested s).next.kind = s.kind := State.kind_congr hskip hne
  -- A closer is no separator, so none is read behind the placeholder.
  rw [(statementOrError_ok hstatement.1).2, hstatement.2, rest_separator, hskip]
  rw [hkind]
  rcases hcloser with h | h <;> simp [h, Kind.isSeparator]

/-- A stuck turn gives a statement and reads nothing. -/
theorem turn_of_stuck (table : Table) (h : Stuck n s) (enclosure : Enclosure) :
    ∃ stmt, ((level table n).turn enclosure s).value = some stmt ∧
      ((level table n).turn enclosure s).next.rest = s.rest := by
  have hstarts : StartsStatement s := by
    rcases h.2 with h | h
    · exact startsStatement_of_kind h (by decide)
    · exact startsStatement_of_kind h (by decide)
  obtain ⟨hvalue, hnext⟩ := @turn_starts (level table n) enclosure s hstarts
  refine ⟨_, hvalue, ?_⟩
  rw [hnext]
  exact statementOrError_of_stuck h

end Level

/-! ## Loops that are not cut off -/

/-- A run of turns up to one without a value, however long it is and whatever the turns read.
This is `many` without the cut. -/
inductive Loop (turn : Parse (Option α)) : State → List α → State → Prop
  | stop {s : State} (h : (turn s).value = none) : Loop turn s [] (turn s).next
  | go {s t : State} {a : α} {as : List α} (h : (turn s).value = some a)
    (others : Loop turn (turn s).next as t) : Loop turn s (a :: as) t

/-- A run of turns that starts in one state comes to another one. -/
inductive Visits (turn : Parse (Option α)) : State → State → Prop
  | here (s : State) : Visits turn s s
  | go {s t : State} {a : α} (h : (turn s).value = some a)
    (others : Visits turn (turn s).next t) : Visits turn s t

/-- What was not cut off is the run to its end. -/
theorem many_loop (turn : Parse (Option α)) (s : State)
    (h : (many turn s).next.stalled = false) :
    Loop turn s (many turn s).value (many turn s).next := by
  cases hvalue : (turn s).value with
  | none =>
    rcases many_of_none hvalue with ⟨has, ht⟩
    rw [has, ht]
    exact .stop hvalue
  | some a =>
    by_cases hlt : (turn s).next.rest.length < s.rest.length
    · rcases many_of_some hvalue hlt with ⟨has, ht⟩
      rw [ht] at h
      rw [has, ht]
      exact .go hvalue (many_loop turn (turn s).next h)
    · rcases many_of_stuck hvalue hlt with ⟨_, ht⟩
      rw [ht] at h
      cases h
termination_by s.rest.length

namespace Level

variable {table : Table} {n : Nat} {enclosure : Enclosure} {s : State}

/-- A loop that comes to a closer where nothing may be nested never ends. -/
theorem not_loop_of_stuck {stmts : List Stmt} {t : State}
    (h : Loop ((level table n).turn enclosure) s stmts t) : ¬ Stuck n s := by
  induction h with
  | stop hnone =>
    intro hstuck
    rcases turn_of_stuck table hstuck enclosure with ⟨stmt, hsome, _⟩
    rw [hnone] at hsome
    cases hsome
  | go hsome others ih =>
    -- A stuck turn leaves the tokens as they are, so the next turn is stuck again.
    intro hstuck
    rcases turn_of_stuck table hstuck enclosure with ⟨_, _, hrest⟩
    exact ih (hstuck.congr hrest)

end Level

/-! ## What is noted of a loop that was cut off -/

/-- Reading on does not take back that a loop was cut off. -/
theorem stalled_advance {s : State} (h : s.stalled = true) :
    (advance s).next.stalled = true := by
  rw [next_advance_eq]
  exact h

/-- Once a loop was cut off, the state says so ever after. -/
theorem stalledSimulation (table : Table) :
    Simulation table table {} (fun _ s s' => s = s' ∧ s.stalled = true) (fun _ => True) where
  loops_succ _ := trivial
  span _ := rfl
  kind := by rintro _ s _ ⟨rfl, _⟩; rfl
  place := by rintro _ s _ ⟨rfl, _⟩; rfl
  text := by rintro _ s _ ⟨rfl, _⟩ _; rfl
  isLocal := by rintro _ s _ ⟨rfl, _⟩ _; rfl
  numeral := by rintro _ s _ ⟨rfl, _⟩ _; rfl
  tier := by rintro _ s _ ⟨rfl, _⟩ _; rfl
  startsOperand := by rintro _ s _ ⟨rfl, _⟩; rfl
  assigns := by rintro _ s _ ⟨rfl, _⟩ _; rfl
  assignsPrivately := by rintro _ s _ ⟨rfl, _⟩ _; rfl
  lastEnd := by rintro _ s _ ⟨rfl, _⟩; rfl
  shorter := by rintro _ s _ t _ ⟨rfl, _⟩ ⟨rfl, _⟩; rfl
  advance := by rintro _ s _ ⟨rfl, h⟩ _ _ _ _; exact ⟨rfl, stalled_advance h⟩
  enter := by rintro _ s _ ⟨rfl, h⟩ _; exact ⟨rfl, stalled_advance h⟩
  leave := by rintro _ s _ ⟨rfl, h⟩ _; exact ⟨rfl, stalled_advance h⟩
  weaken := id
  report := by rintro _ s _ d ⟨rfl, h⟩; exact ⟨by rw [Recast.diagnostic_renumber], h⟩
  nextId := by rintro _ s _ ⟨rfl, _⟩; rfl
  freshId := by rintro _ s _ ⟨rfl, h⟩; exact ⟨rfl, h⟩
  stall := by rintro _ s _ ⟨rfl, _⟩; exact ⟨rfl, rfl⟩
  dropNested := by rintro _ s _ ⟨rfl, h⟩; exact ⟨rfl, h⟩
  dropUntil := by rintro _ s _ _ ⟨rfl, h⟩; exact ⟨rfl, h⟩
  dropStatement := by rintro _ s _ t _ _ ⟨rfl, _⟩ ⟨rfl, h⟩ _; exact ⟨rfl, h⟩
  dropSeparators := by rintro _ s _ _ ⟨rfl, h⟩; exact ⟨rfl, h⟩

namespace Level

variable {table : Table} {n : Nat} {enclosure : Enclosure} {s : State}

/-- Nor do the statements that are read after it. -/
theorem statements_stalled (h : s.stalled = true) :
    ((level table n).statements enclosure s).next.stalled = true := by
  have sim := stalledSimulation table
  refine (sim.agree_statements (sim.level n) (k := 0) trivial ⟨rfl, h⟩ enclosure ?_).2.2
  rintro - t _ ⟨rfl, ht⟩ -
  exact ⟨rfl, stalled_advance ht⟩

/-- If a loop has been cut off, one of its turns was stuck or cut off a loop inside of it. -/
theorem visits_of_stalled (s : State)
    (h : ((level table n).statements enclosure s).next.stalled = true) :
    ∃ t, Visits ((level table n).turn enclosure) s t ∧
      (Stuck n t ∨ ((level table n).turn enclosure t).next.stalled = true) := by
  unfold statements at h
  -- Induction on what is left to read, turn by turn.
  cases hvalue : ((level table n).turn enclosure s).value with
  | none =>
    rw [(many_of_none hvalue).2] at h
    exact ⟨s, .here s, .inr h⟩
  | some stmt =>
    by_cases hlt : ((level table n).turn enclosure s).next.rest.length < s.rest.length
    · rw [(many_of_some hvalue hlt).2] at h
      rcases visits_of_stalled _ h with ⟨t, hvisits, ht⟩
      exact ⟨t, .go hvalue hvisits, ht⟩
    · -- The cut was made here, since the turn has read nothing.
      refine ⟨s, .here s, .inl ?_⟩
      rcases turn_progress table n enclosure s with hnone | hshort | hstuck
      · rw [hvalue] at hnone
        cases hnone
      · exact absurd hshort hlt
      · exact hstuck
termination_by s.rest.length

/-- If one of the turns is stuck or cuts off a loop, so is this one. -/
theorem stalled_of_visits {t : State} (hvisits : Visits ((level table n).turn enclosure) s t)
    (ht : Stuck n t ∨ ((level table n).turn enclosure t).next.stalled = true) :
    ((level table n).statements enclosure s).next.stalled = true := by
  unfold statements
  induction hvisits with
  | here s =>
    rcases ht with hstuck | hstalled
    · rcases turn_of_stuck table hstuck enclosure with ⟨stmt, hsome, hrest⟩
      rw [(many_of_stuck hsome (by simp [hrest])).2]
    · cases hvalue : ((level table n).turn enclosure s).value with
      | none => rwa [(many_of_none hvalue).2]
      | some stmt =>
        -- Whether the loop goes on or is cut off, the mark is kept.
        by_cases hlt : ((level table n).turn enclosure s).next.rest.length < s.rest.length
        · rw [(many_of_some hvalue hlt).2]
          exact statements_stalled hstalled
        · rw [(many_of_stuck hvalue hlt).2]
  | @go s t stmt hsome others ih =>
    by_cases hlt : ((level table n).turn enclosure s).next.rest.length < s.rest.length
    · rw [(many_of_some hsome hlt).2]
      exact ih ht
    · rw [(many_of_stuck hsome hlt).2]

end Level

/-! ## The other loops -/

/-- A run of the loop over items with commas between them. A further item is read only behind
a comma, so with fewer tokens left. -/
inductive Items (closer : Kind) (expectation : String) (item : Attempt α) :
    State → Except Diagnostic (List α) → State → Prop
  | closed {s : State} (h : s.kind = closer) : Items closer expectation item s (.ok []) s
  | failed {s : State} {d : Diagnostic} (hclose : s.kind ≠ closer)
    (h : (item.run s).value = .error d) :
    Items closer expectation item s (.error d) (item.run s).next
  | last {s : State} {a : α} (hclose : s.kind ≠ closer) (h : (item.run s).value = .ok a)
    (hlast : (item.run s).next.kind = closer) :
    Items closer expectation item s (.ok [a]) (item.run s).next
  | unexpected {s : State} {a : α} (hclose : s.kind ≠ closer) (h : (item.run s).value = .ok a)
    (hcomma : (item.run s).next.kind ≠ .comma) (hlast : (item.run s).next.kind ≠ closer) :
    Items closer expectation item s (.error ((item.run s).next.unexpected expectation))
      (item.run s).next
  | more {s t : State} {a : α} {as : Except Diagnostic (List α)} (hclose : s.kind ≠ closer)
    (h : (item.run s).value = .ok a) (hcomma : (item.run s).next.kind = .comma)
    (hlt : (advance (item.run s).next).next.rest.length < s.rest.length)
    (others : Items closer expectation item (advance (item.run s).next).next as t) :
    Items closer expectation item s (as.map (a :: ·)) t

/-- A list with commas is read item by item. -/
theorem commaList_items {closer : Kind} (hcloser : closer ≠ .endOfInput) (expectation : String)
    (item : Attempt α) (s : State) :
    Items closer expectation item s ((commaList closer expectation item).run s).value
      ((commaList closer expectation item).run s).next := by
  rw [commaList_eq hcloser, Attempt.value_lift_bind, Attempt.next_lift_bind]
  simp only [value_kind, next_kind]
  by_cases hclose : s.kind = closer
  · simp only [hclose, ↓reduceIte]
    exact .closed hclose
  simp only [hclose, ↓reduceIte]
  cases hitem : (item.run s).value with
  | error d =>
    rw [(Attempt.bind_error hitem).1, (Attempt.bind_error hitem).2]
    exact .failed hclose hitem
  | ok a =>
    rw [(Attempt.bind_ok hitem).1, (Attempt.bind_ok hitem).2, Attempt.value_lift_bind,
      Attempt.next_lift_bind]
    simp only [value_kind, next_kind]
    by_cases hcomma : (item.run s).next.kind = .comma
    · have hle := length_next_le item.run s
      have hread := length_advance (s := (item.run s).next) (by simp [hcomma])
      -- The comma that is read makes the rest of the list shorter.
      have hlt : (advance (item.run s).next).next.rest.length < s.rest.length := by omega
      obtain ⟨hvalue, hnext⟩ := Attempt.bind_pure (x := commaList closer expectation item)
        (s := (advance (item.run s).next).next) (a :: ·)
      simp only [hcomma, ↓reduceIte]
      rw [Attempt.value_lift_bind, Attempt.next_lift_bind, hvalue, hnext]
      exact .more hclose hitem hcomma hlt (commaList_items hcloser expectation item _)
    · by_cases hlast : (item.run s).next.kind = closer
      · have hne : closer ≠ .comma := by rwa [hlast] at hcomma
        simp only [hlast, hne, ↓reduceIte]
        exact .last hclose hitem hlast
      · simp only [hcomma, hlast, ↓reduceIte]
        exact .unexpected hclose hitem hcomma hlast
termination_by s.rest.length

/-- Tokens nested too deep are dropped one by one. -/
theorem nestedLength_step (depth : Nat) (t : Token) (ts : List Token) :
    nestedLength depth (t :: ts) = 0 ∨
      ∃ depth', nestedLength depth (t :: ts) = nestedLength depth' ts + 1 := by
  rw [nestedLength]
  split
  · exact .inl rfl
  split
  · exact .inl rfl
  right
  split
  · exact ⟨_, rfl⟩
  split
  · exact ⟨_, rfl⟩
  · exact ⟨_, rfl⟩

/-- So are those in front of one that is looked for. -/
theorem untilLength_step (stops : List Kind) (depth : Nat) (t : Token) (ts : List Token) :
    untilLength stops depth (t :: ts) = 0 ∨
      ∃ depth', untilLength stops depth (t :: ts) = untilLength stops depth' ts + 1 := by
  rw [untilLength]
  split
  · exact .inl rfl
  split
  · exact .inl rfl
  right
  split
  · exact ⟨_, rfl⟩
  split
  · exact ⟨_, rfl⟩
  · exact ⟨_, rfl⟩

/-- The end of a statement is here, behind the next token, or further on. -/
theorem statementLength_step (curly groups : Nat) (t : Token) (ts : List Token) :
    statementLength curly groups (t :: ts) ≤ 1 ∨
      ∃ curly' groups',
        statementLength curly groups (t :: ts) = statementLength curly' groups' ts + 1 := by
  -- It stops at the end and at a brace, which stay, or behind a separator, which is the last one
  -- dropped.
  rw [statementLength]
  split
  · exact .inl (by omega)
  · split
    · exact .inl (by omega)
    · exact .inr ⟨_, _, rfl⟩
  · exact .inr ⟨_, _, rfl⟩
  · exact .inr ⟨_, _, rfl⟩
  · exact .inr ⟨_, _, rfl⟩
  · exact .inr ⟨_, _, rfl⟩
  · exact .inr ⟨_, _, rfl⟩
  · split
    · exact .inl (by omega)
    · exact .inr ⟨_, _, rfl⟩
  · split
    · exact .inl (by omega)
    · exact .inr ⟨_, _, rfl⟩
  · exact .inr ⟨_, _, rfl⟩

/-! ## Scripts -/

/-- Outside of any block, turns stop at the end of the input only. -/
theorem kind_of_file_loop {inner : Level} {s t : State} {stmts : List Stmt}
    (h : Loop (inner.turn .file) s stmts t) : t.kind = .endOfInput := by
  induction h with
  | @stop s hnone =>
    rcases turn_eq inner .file s with ⟨hvalue, hnext⟩
    rw [hnext]
    rw [hvalue] at hnone
    rcases statementOrNone_cases .file (isSeparator_pastSeparators s) with
      hend | ⟨hcurly, _⟩ | hstarts
    · rw [(statementOrNone_end inner hend).2]
      rcases hend with hend | ⟨_, hblock⟩
      · exact hend
      · cases hblock
    · rw [(statementOrNone_curly inner hcurly).1] at hnone
      cases hnone
    · rw [(statementOrNone_starts inner hstarts).1] at hnone
      cases hnone
  | go _ _ ih => exact ih

/-- Every loop of the parser makes progress or ends, but for the loop over statements where
nothing may be nested any more and a `)` or `]` stands, which then goes on for ever. A state says
whether that happened (`stalled`), and if it did not, the loops run to their end and a script
is read to the end of its input. -/
theorem reading_ends (table : Table) :
    (∀ n enclosure s, ((level table n).turn enclosure s).value = none ∨
      Shortens ((level table n).turn enclosure) s ∨ Stuck n s) ∧
    (∀ n enclosure s stmts t, Stuck n s → ¬ Loop ((level table n).turn enclosure) s stmts t) ∧
    (∀ n s,
      let elements := commaList .closeBracket "`,` or `]`" ((level table n).expr .lowest)
      Items .closeBracket "`,` or `]`" ((level table n).expr .lowest) s (elements.run s).value
        (elements.run s).next) ∧
    (∀ depth t ts, nestedLength depth (t :: ts) = 0 ∨
      ∃ depth', nestedLength depth (t :: ts) = nestedLength depth' ts + 1) ∧
    (∀ stops depth t ts, untilLength stops depth (t :: ts) = 0 ∨
      ∃ depth', untilLength stops depth (t :: ts) = untilLength stops depth' ts + 1) ∧
    (∀ curly groups t ts, statementLength curly groups (t :: ts) ≤ 1 ∨
      ∃ curly' groups',
        statementLength curly groups (t :: ts) = statementLength curly' groups' ts + 1) ∧
    (∀ n enclosure s, ((level table n).statements enclosure s).next.stalled = true ↔
      ∃ t, Visits ((level table n).turn enclosure) s t ∧
        (Stuck n t ∨ ((level table n).turn enclosure t).next.stalled = true)) ∧
    (∀ n enclosure s, ((level table n).statements enclosure s).next.stalled = false →
      Loop ((level table n).turn enclosure) s ((level table n).statements enclosure s).value
        ((level table n).statements enclosure s).next) ∧
    (∀ tokens,
      ((level table maxNesting).statements .file (.initial tokens)).next.stalled = false →
      ∃ t, Loop ((level table maxNesting).turn .file) (.initial tokens)
          (parse table tokens).program.statements t ∧
        t.kind = .endOfInput) := by
  refine ⟨Level.turn_progress table, ?_, ?_, nestedLength_step, untilLength_step,
    statementLength_step, ?_, ?_, ?_⟩
  · intro n enclosure s stmts t hstuck hloop
    exact Level.not_loop_of_stuck hloop hstuck
  · intro n s
    exact commaList_items (by decide) _ _ s
  · intro n enclosure s
    constructor
    · exact Level.visits_of_stalled s
    · rintro ⟨t, hvisits, ht⟩
      exact Level.stalled_of_visits hvisits ht
  · intro n enclosure s h
    exact many_loop _ s h
  · intro tokens h
    have hloop := many_loop _ _ h
    exact ⟨_, hloop, kind_of_file_loop hloop⟩

/-- At the deepest level no number of turns gets past a `)`; the script `{ 1 }` is read to its
end. -/
theorem reading_ends_block :
    (¬ Loop ((level .empty 0).turn .block) { rest := [⟨.closeParen, ")", {}⟩], finish := {} } []
      { rest := [], finish := {} }) ∧
    ∃ t, Loop ((level .empty maxNesting).turn .file)
        (.initial [⟨.openCurly, "\x7b", {}⟩, ⟨.number, "1", {}⟩, ⟨.closeCurly, "\x7d", {}⟩])
        (parse .empty [⟨.openCurly, "\x7b", {}⟩, ⟨.number, "1", {}⟩,
          ⟨.closeCurly, "\x7d", {}⟩]).program.statements t ∧
      t.kind = .endOfInput := by
  rcases reading_ends .empty with ⟨_, hstuck, _, _, _, _, _, _, hscript⟩
  constructor
  · exact hstuck 0 .block _ _ _ ⟨rfl, .inl rfl⟩
  · exact hscript _ (by decide +kernel)

/-- A block inside of a block takes two levels, so a closer behind 64 openers is not passed. -/
example :
    ((level .empty maxNesting).statements .file (.initial
      (List.replicate 64 ⟨.openCurly, "\x7b", {}⟩ ++
        [⟨.closeParen, ")", {}⟩]))).next.stalled = true := by
  decide +kernel

end Sqf.Parse
