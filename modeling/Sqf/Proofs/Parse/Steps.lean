import Sqf.Parse.Program

/-!
# One step after the other

What the primitive parsers do to a state, and how a parser made of two parts
runs: the second one from where the first one stopped. Parsers that may fail
run in the same way as long as nothing fails.
-/

namespace Sqf

namespace Parse

/-! ## States -/

theorem State.token_cons {s : State} {t : Token} {ts : List Token} (h : s.rest = t :: ts) :
    s.token = t := by
  simp [State.token, h]

theorem State.kind_cons {s : State} {t : Token} {ts : List Token} (h : s.rest = t :: ts) :
    s.kind = t.kind := by
  simp [State.kind, State.token_cons h]

/-- Behind the last token there is only the end of the input. -/
theorem State.kind_nil {s : State} (h : s.rest = []) : s.kind = .endOfInput := by
  simp [State.kind, State.token, h]

/-- Before the end of input there is a token, and it is the next one. -/
theorem State.exists_cons {s : State} (h : s.kind ≠ .endOfInput) :
    ∃ ts, s.rest = s.token :: ts := by
  cases hr : s.rest with
  | nil => exact absurd (State.kind_nil hr) h
  | cons t ts => exact ⟨ts, by rw [State.token_cons hr]⟩

theorem State.rest_ne_nil {s : State} (h : s.kind ≠ .endOfInput) : s.rest ≠ [] := by
  rcases State.exists_cons h with ⟨ts, hts⟩
  simp [hts]

/-- Before the end of input the next token is the first of those left. -/
theorem State.token_congr {s t : State} (h : t.rest = s.rest) (hne : s.kind ≠ .endOfInput) :
    t.token = s.token := by
  rcases State.exists_cons hne with ⟨ts, hts⟩
  exact State.token_cons (h.trans hts)

/-- The kind of the next token depends on what is left to read. -/
theorem State.kind_congr {s t : State} (h : t.rest = s.rest) (hne : s.kind ≠ .endOfInput) :
    t.kind = s.kind :=
  congrArg Token.kind (State.token_congr h hne)

/-- Nothing has been read or found at first. -/
theorem initial_found (tokens : List Token) :
    (State.initial tokens).lastEnd = 0 ∧ (State.initial tokens).nextId = 1 ∧
      (State.initial tokens).diagnostics = #[] ∧ (State.initial tokens).stalled = false := by
  unfold State.initial
  split
  · exact ⟨rfl, rfl, rfl, rfl⟩
  · split
    · exact ⟨rfl, rfl, rfl, rfl⟩
    · exact ⟨rfl, rfl, rfl, rfl⟩

/-- An end of input behind the tokens is set apart from them. -/
theorem initial_append_end {ts : List Token} {t : Token} (h : t.kind = .endOfInput) :
    State.initial (ts ++ [t]) = { rest := ts, finish := t.span } := by
  simp [State.initial, h]

/-- The tokens to be read are those in front of the end of input, whether or not it stands behind
them. -/
theorem State.rest_initial {ts : List Token} (hts : ∀ t ∈ ts, t.kind ≠ .endOfInput)
    {finish : Option Token} (hfinish : ∀ t ∈ finish, t.kind = .endOfInput) :
    (State.initial (ts ++ finish.toList)).rest = ts := by
  cases finish with
  | some t => rw [Option.toList_some, initial_append_end (hfinish t rfl)]
  | none =>
    -- The last token is not taken for the end of input.
    rw [Option.toList_none, List.append_nil]
    unfold State.initial
    split
    · next h => exact (List.getLast?_eq_none_iff.1 h).symm
    · next t h => rw [if_neg (hts t (List.mem_of_getLast? h))]

/-! ## Primitive parsers -/

/-- Reading gives the next token. -/
theorem value_advance (s : State) : (advance s).value = s.token := by
  unfold advance
  split
  · rfl
  · next h => rw [State.token_cons h]

/-- It takes that token from what is left and remembers where it ended. -/
theorem next_advance {s : State} {t : Token} {ts : List Token} (h : s.rest = t :: ts) :
    (advance s).next = { s with rest := ts, lastEnd := t.span.stop } := by
  unfold advance
  split
  · next h' => simp [h] at h'
  · next t' ts' h' =>
    rw [h] at h'
    rcases List.cons.inj h' with ⟨rfl, rfl⟩
    rfl

/-- At the end of the input there is nothing to take. -/
theorem next_advance_nil {s : State} (h : s.rest = []) :
    (advance s).next = { s with lastEnd := s.finish.stop } := by
  unfold advance
  split <;> simp_all

/-- Both cases in one. -/
theorem next_advance_eq (s : State) :
    (advance s).next = { s with rest := s.rest.tail, lastEnd := s.token.span.stop } := by
  unfold advance
  split
  · next h => simp [State.token, h]
  · next t ts h => simp [State.token, h]

/-- Each token that is read leaves one fewer. -/
theorem length_advance {s : State} (h : s.kind ≠ .endOfInput) :
    (advance s).next.rest.length + 1 = s.rest.length := by
  rcases State.exists_cons h with ⟨ts, hts⟩
  rw [next_advance hts, hts, List.length_cons]

/-- What comes next is what was second. -/
theorem kind_next_advance {s : State} (h : s.kind ≠ .endOfInput) :
    (advance s).next.kind = s.kindAt 1 := by
  rcases State.exists_cons h with ⟨ts, hts⟩
  rw [next_advance hts, State.kindAt, hts]
  cases ts <;> rfl

@[simp] theorem value_state (s : State) : (state s).value = s := rfl

@[simp] theorem next_state (s : State) : (state s).next = s := rfl

@[simp] theorem value_kind (s : State) : (kind s).value = s.kind := rfl

@[simp] theorem next_kind (s : State) : (kind s).next = s := rfl

@[simp] theorem next_skip (n : Nat) (s : State) : (skip n s).next = s.drop n := rfl

@[simp] theorem next_report (d : Diagnostic) (s : State) :
    (report d s).next = { s with diagnostics := s.diagnostics.push d } := rfl

@[simp] theorem value_freshId (s : State) : (freshId s).value = s.nextId := rfl

@[simp] theorem next_freshId (s : State) :
    (freshId s).next = { s with nextId := s.nextId + 1 } := rfl

@[simp] theorem value_spanFrom (start : Span) (s : State) :
    (spanFrom start s).value = s.spanFrom start := rfl

@[simp] theorem next_spanFrom (start : Span) (s : State) : (spanFrom start s).next = s := rfl

/-- Parsers are the same if they give the same values and leave the same states. -/
theorem ext {p q : Parse α} (h : ∀ s, (p s).value = (q s).value ∧ (p s).next = (q s).next) :
    p = q := by
  funext s
  rcases h s with ⟨hvalue, hnext⟩
  generalize p s = x at *
  generalize q s = y at *
  rcases x with ⟨value, next, suffix⟩
  rcases y with ⟨value', next', suffix'⟩
  simp only at hvalue hnext
  subst hvalue hnext
  rfl

end Parse

/-! ## Parsers that may fail -/

namespace Attempt

open Parse

variable {α β : Type} {x : Attempt α} {f : α → Attempt β} {s : State}

/-- A parser that succeeds hands its value and its state to the one that follows it. -/
theorem bind_ok {a : α} (h : (x.run s).value = .ok a) :
    ((x >>= f).run s).value = ((f a).run (x.run s).next).value ∧
      ((x >>= f).run s).next = ((f a).run (x.run s).next).next := by
  show ((ExceptT.bindCont f (x.run s).value : Parse _) (x.run s).next).value = _ ∧
    ((ExceptT.bindCont f (x.run s).value : Parse _) (x.run s).next).next = _
  rw [h]
  exact ⟨rfl, rfl⟩

/-- After a failure nothing more is run. -/
theorem bind_error {d : Diagnostic} (h : (x.run s).value = .error d) :
    ((x >>= f).run s).value = .error d ∧ ((x >>= f).run s).next = (x.run s).next := by
  show ((ExceptT.bindCont f (x.run s).value : Parse _) (x.run s).next).value = _ ∧
    ((ExceptT.bindCont f (x.run s).value : Parse _) (x.run s).next).next = _
  rw [h]
  exact ⟨rfl, rfl⟩

/-- Turning the result into another one reads nothing. -/
theorem bind_pure (f : α → β) :
    ((do return f (← x) : Attempt β).run s).value = (x.run s).value.map f ∧
      ((do return f (← x) : Attempt β).run s).next = (x.run s).next := by
  cases hx : (x.run s).value with
  | ok a => exact bind_ok (f := fun a => pure (f a)) hx
  | error d => exact bind_error (f := fun a => pure (f a)) hx

/-- What a sequence gives was given by its second part. -/
theorem of_bind_ok {b : β} (h : ((x >>= f).run s).value = .ok b) :
    ∃ a, (x.run s).value = .ok a ∧ ((f a).run (x.run s).next).value = .ok b := by
  cases hx : (x.run s).value with
  | error d => rw [(bind_error hx).1] at h; cases h
  | ok a => exact ⟨a, rfl, by rw [← (bind_ok hx).1]; exact h⟩

/-- A parser that cannot fail gives way to what follows it: here the value. -/
theorem value_lift_bind (p : Parse α) (f : α → Attempt β) (s : State) :
    ((liftM p >>= f).run s).value = ((f (p s).value).run (p s).next).value := rfl

/-- The same for the state. -/
theorem next_lift_bind (p : Parse α) (f : α → Attempt β) (s : State) :
    ((liftM p >>= f).run s).next = ((f (p s).value).run (p s).next).next := rfl

/-- Two parsers are the same when they give the same value and the same state everywhere. -/
theorem ext {x y : Attempt α}
    (h : ∀ s, (x.run s).value = (y.run s).value ∧ (x.run s).next = (y.run s).next) : x = y :=
  Parse.ext h

/-- If the parser gives a value, this holds of the value and of the state it leaves. -/
def Ensures (x : Attempt α) (Q : α → State → Prop) (s : State) : Prop :=
  ∀ a, (x.run s).value = .ok a → Q a (x.run s).next

variable {P : α → State → Prop} {Q : β → State → Prop}

/-- What holds of the result of the first part may be used for the second. -/
theorem Ensures.bind (h : Ensures x P s) (hf : ∀ a t, P a t → Ensures (f a) Q t) :
    Ensures (x >>= f) Q s := by
  intro b hb
  rcases of_bind_ok hb with ⟨a, ha, hfa⟩
  rw [(bind_ok ha).2]
  exact hf a _ (h a ha) b hfa

/-- A first part that cannot fail is simply run. -/
theorem Ensures.lift_bind {p : Parse α} (h : Ensures (f (p s).value) Q (p s).next) :
    Ensures (liftM p >>= f) Q s :=
  h

/-- A parser that reads nothing ensures what holds already. -/
theorem Ensures.pure {b : β} (h : Q b s) : Ensures (Pure.pure b) Q s := by
  intro a ha
  cases ha
  exact h

/-- From the state `s` the parser gives `a` and leaves the state `t`. -/
def Runs (x : Attempt α) (s : State) (a : α) (t : State) : Prop :=
  (x.run s).value = .ok a ∧ (x.run s).next = t

section Runs

variable {a : α} {b : β} {t u : State}

/-- Two parsers that succeed do so one after the other. -/
theorem Runs.bind (h : Runs x s a t) (hf : Runs (f a) t b u) : Runs (x >>= f) s b u := by
  obtain ⟨hvalue, hnext⟩ := Attempt.bind_ok (f := f) h.1
  unfold Runs
  rw [hvalue, hnext, h.2]
  exact hf

theorem Runs.pure (a : α) : Runs (Pure.pure a) s a s := ⟨rfl, rfl⟩

/-- A parser that cannot fail succeeds. -/
theorem Runs.lift (p : Parse α) : Runs (liftM p) s (p s).value (p s).next := ⟨rfl, rfl⟩

/-- Looking at the kind of the next token changes nothing. -/
theorem Runs.kind_bind {f : Kind → Attempt β} (h : Runs (f s.kind) s b u) :
    Runs (liftM Parse.kind >>= f) s b u := h

/-- Nor does looking at the whole state. -/
theorem Runs.state_bind {f : State → Attempt β} (h : Runs (f s) s b u) :
    Runs (liftM Parse.state >>= f) s b u := h

/-- A token that is there can be read, without a diagnostic. -/
theorem Runs.advance {t : Token} {ts : List Token} (hrest : s.rest = t :: ts) :
    ∃ u : State, u.rest = ts ∧ u.diagnostics = s.diagnostics ∧
      Runs (liftM Parse.advance) s t u := by
  refine ⟨(Parse.advance s).next, by rw [Parse.next_advance hrest],
    by rw [Parse.next_advance hrest], ?_, rfl⟩
  show Except.ok (Parse.advance s).value = _
  rw [Parse.value_advance, State.token_cons hrest]

end Runs

end Attempt

/-! ## Loops

The loops are defined by recursion over the tokens left. Here they are written as programs,
each as one turn with the loop behind it. -/

namespace Parse

/-- Notes that a loop was cut off. -/
def stall : Parse Unit := fun s => ⟨(), { s with stalled := true }, List.suffix_refl _⟩

/-- One turn of the loop: another one follows only if this one has read something. -/
theorem many_eq (turn : Parse (Option α)) : many turn = (do
    let before ← state
    match ← turn with
    | none => return []
    | some a =>
      if (← state).rest.length < before.rest.length then
        let others ← many turn
        return a :: others
      else
        stall
        return [a]) := by
  apply ext
  intro s
  rw [many]
  simp only [value_bind, next_bind, value_state, next_state]
  cases hvalue : (turn s).value with
  | none => simp
  | some a =>
    by_cases hlt : (turn s).next.rest.length < s.rest.length
    · simp [hlt]
    · simp [hlt, stall]

section Many

variable {turn : Parse (Option α)} {s : State} {a : α}

/-- The loop ends with a turn that finds nothing. -/
theorem many_of_none (h : (turn s).value = none) :
    (many turn s).value = [] ∧ (many turn s).next = (turn s).next := by
  rw [many]
  simp [h]

/-- It goes on after a turn that has read something. -/
theorem many_of_some (h : (turn s).value = some a)
    (hlt : (turn s).next.rest.length < s.rest.length) :
    (many turn s).value = a :: (many turn (turn s).next).value ∧
      (many turn s).next = (many turn (turn s).next).next := by
  rw [many]
  simp [h, hlt]

/-- It stops after a turn that has not, and the state remembers that. -/
theorem many_of_stuck (h : (turn s).value = some a)
    (hlt : ¬ (turn s).next.rest.length < s.rest.length) :
    (many turn s).value = [a] ∧ (many turn s).next = { (turn s).next with stalled := true } := by
  rw [many]
  simp [h, hlt]

end Many

/-- One turn of a list with commas, as a parser. The list is defined by what it has left to read. -/
theorem commaList_eq {closer : Kind} (hcloser : closer ≠ .endOfInput) (expectation : String)
    (item : Attempt α) :
    commaList closer expectation item = (do
      if (← (kind : Parse Kind)) = closer then return []
      let a ← item
      let k ← (kind : Parse Kind)
      if k = .comma then
        let _ ← (advance : Parse Token)
        let others ← commaList closer expectation item
        return a :: others
      else if k = closer then return [a]
      else failUnexpected expectation) := by
  apply Attempt.ext
  intro s
  show ((commaList closer expectation item : Parse _) s).value = _ ∧
    ((commaList closer expectation item : Parse _) s).next = _
  rw [commaList, Attempt.value_lift_bind, Attempt.next_lift_bind]
  simp only [value_kind, next_kind]
  -- An empty list ends at once.
  by_cases hclose : s.kind = closer
  · simp only [hclose, ↓reduceIte]
    exact ⟨rfl, rfl⟩
  · simp only [hclose, ↓reduceIte]
    -- Whether the list goes on is seen from what follows its item.
    cases hitem : (item.run s).value with
    | error d =>
      rw [(Attempt.bind_error hitem).1, (Attempt.bind_error hitem).2]
      exact ⟨rfl, rfl⟩
    | ok a =>
      rw [(Attempt.bind_ok hitem).1, (Attempt.bind_ok hitem).2, Attempt.value_lift_bind,
        Attempt.next_lift_bind]
      simp only [value_kind, next_kind]
      split
      · next hrest =>
        simp only [State.kind_nil hrest, Ne.symm hcloser, reduceCtorEq, ↓reduceIte]
        exact ⟨rfl, rfl⟩
      · next t ts hrest =>
        have hkind := State.kind_cons hrest
        by_cases hcomma : t.kind = .comma
        · simp only [hkind, hcomma, ↓reduceIte]
          rw [Attempt.value_lift_bind, Attempt.next_lift_bind, next_advance hrest]
          cases hothers : ((commaList closer expectation item).run
            { (item.run s).next with rest := ts, lastEnd := t.span.stop }).value with
          | error d =>
            rw [(Attempt.bind_error hothers).1, (Attempt.bind_error hothers).2]
            exact ⟨congrArg (Except.map _) hothers, rfl⟩
          | ok as =>
            rw [(Attempt.bind_ok hothers).1, (Attempt.bind_ok hothers).2]
            exact ⟨congrArg (Except.map _) hothers, rfl⟩
        · by_cases hlast : t.kind = closer
          · subst hlast
            simp only [hkind, hcomma, ↓reduceIte]
            exact ⟨rfl, rfl⟩
          · simp only [hkind, hcomma, hlast, ↓reduceIte]
            exact ⟨rfl, rfl⟩

/-- A list of items ends before its closer. -/
theorem commaList_closed {closer : Kind} (hcloser : closer ≠ .endOfInput) (expectation : String)
    (item : Attempt α) (s : State) :
    Attempt.Ensures (commaList closer expectation item) (fun _ t => t.kind = closer) s := by
  rw [commaList_eq hcloser]
  apply Attempt.Ensures.lift_bind
  split
  · next hclose => exact Attempt.Ensures.pure hclose
  · refine Attempt.Ensures.bind (P := fun _ t => t.rest.length ≤ s.rest.length) ?_ ?_
    · intro a _
      exact length_next_le item.run s
    · intro a t hle
      apply Attempt.Ensures.lift_bind
      split
      · next hcomma =>
        have hread := length_advance (s := t) (by rw [← value_kind, hcomma]; decide)
        apply Attempt.Ensures.lift_bind
        refine (commaList_closed hcloser expectation item _).bind ?_
        intro as u hu
        exact Attempt.Ensures.pure hu
      · split
        · next hlast => exact Attempt.Ensures.pure hlast
        · intro as has
          cases has
termination_by s.rest.length

/-- The end of input is no operator. -/
theorem tier?_endOfInput (table : Table) {t : Token} (h : t.kind = .endOfInput) :
    table.tier? t = none := by
  simp [Table.tier?, h, Tier.ofKind?]

/-- One turn of the loop over operators, as a parser: it takes those that bind tighter than the
limit. -/
theorem operators_eq (inner : Level) (table : Table) (limit : Tier) (left : Expr) :
    inner.operators table limit left = (do
      match table.tier? (← (state : Parse State)).token with
      | none => return left
      | some tier =>
        if tier.tighter limit then
          let op ← (advance : Parse Token)
          let right ← inner.expr tier
          inner.operators table limit (joined op left right)
        else return left) := by
  apply Attempt.ext
  intro s
  show ((inner.operators table limit left : Parse _) s).value = _ ∧
    ((inner.operators table limit left : Parse _) s).next = _
  rw [Level.operators, Attempt.value_lift_bind, Attempt.next_lift_bind]
  simp only [value_state, next_state]
  split
  · next hrest =>
    have htier : table.tier? s.token = none :=
      tier?_endOfInput table (State.kind_nil hrest)
    simp only [htier]
    exact ⟨rfl, rfl⟩
  · next op ts hrest =>
    rw [State.token_cons hrest]
    -- The next token may be no operator, or one of a tier that is out of reach here.
    cases table.tier? op with
    | none => exact ⟨rfl, rfl⟩
    | some tier =>
      by_cases htight : tier.tighter limit = true
      · simp only [htight, ↓reduceIte]
        rw [Attempt.value_lift_bind, Attempt.next_lift_bind, value_advance, next_advance hrest,
          State.token_cons hrest]
        cases hright : ((inner.expr tier).run
          { s with rest := ts, lastEnd := op.span.stop }).value with
        | error d =>
          rw [(Attempt.bind_error hright).1, (Attempt.bind_error hright).2]
          exact ⟨rfl, rfl⟩
        | ok e =>
          rw [(Attempt.bind_ok hright).1, (Attempt.bind_ok hright).2]
          exact ⟨rfl, rfl⟩
      · simp only [htight]
        exact ⟨rfl, rfl⟩

/-! ## Turns of the loop over statements -/

/-- Dropping no token changes nothing. -/
theorem State.drop_zero (s : State) : s.drop 0 = s := by
  simp [State.drop]

/-- Dropping tokens twice is dropping all of them at once. -/
theorem State.drop_drop (s : State) (m n : Nat) : (s.drop m).drop n = s.drop (m + n) := by
  unfold State.drop
  simp only [List.drop_drop, List.take_add, List.getLast?_append]
  cases ((s.rest.drop m).take n).getLast? <;> rfl

/-- The state behind the separators in front of a statement. -/
def pastSeparators (s : State) : State := s.drop (Level.separators s.rest)

/-- All separators that come next are dropped. -/
theorem rest_pastSeparators (s : State) :
    (pastSeparators s).rest = s.rest.dropWhile fun t => t.kind.isSeparator := by
  show s.rest.drop (s.rest.takeWhile fun t => t.kind.isSeparator).length = _
  induction s.rest with
  | nil => rfl
  | cons t ts ih =>
    by_cases h : t.kind.isSeparator = true
    · simp [h, ih]
    · simp [h]

/-- Behind them there is none. -/
theorem isSeparator_pastSeparators (s : State) :
    (pastSeparators s).kind.isSeparator = false := by
  cases h : (pastSeparators s).rest with
  | nil => rw [State.kind_nil h]; rfl
  | cons t ts =>
    have hhead := List.head?_dropWhile_not (fun t : Token => t.kind.isSeparator) s.rest
    rw [← rest_pastSeparators, h] at hhead
    rw [State.kind_cons h]
    simpa using hhead

/-- If nothing is dropped, the state stays as it is. -/
theorem pastSeparators_eq_self {s : State}
    (h : (pastSeparators s).rest.length = s.rest.length) : pastSeparators s = s := by
  -- As many tokens are left as before, so no separator was passed.
  have hzero : Level.separators s.rest = 0 := by
    have hle : Level.separators s.rest ≤ s.rest.length :=
      (List.takeWhile_prefix _).length_le
    have hlength : (s.rest.drop (Level.separators s.rest)).length = s.rest.length := h
    rw [List.length_drop] at hlength
    omega
  rw [pastSeparators, hzero, State.drop_zero]

/-- That is so when the next token is no separator. -/
theorem pastSeparators_of_not {s : State} (h : s.kind.isSeparator = false) :
    pastSeparators s = s := by
  apply pastSeparators_eq_self
  rw [rest_pastSeparators]
  cases hs : s.rest with
  | nil => rfl
  | cons t ts =>
    rw [State.kind_cons hs] at h
    simp [h]

/-- A turn runs behind the separators. -/
theorem turn_eq (inner : Level) (enclosure : Enclosure) (s : State) :
    (inner.turn enclosure s).value = (inner.statementOrNone enclosure (pastSeparators s)).value ∧
      (inner.turn enclosure s).next = (inner.statementOrNone enclosure (pastSeparators s)).next :=
  ⟨rfl, rfl⟩

section StatementOrError

variable {inner : Level} {s : State}

/-- A statement that is read is followed by its separator. -/
theorem statementOrError_ok {stmt : Stmt} (h : (inner.statement.run s).value = .ok stmt) :
    (inner.statementOrError s).value = stmt ∧
      (inner.statementOrError s).next =
        (Level.separator (inner.statement.run s).next).next := by
  simp only [Level.statementOrError, value_bind, next_bind, value_state, next_state, h]
  exact ⟨rfl, rfl⟩

/-- A statement that fails is reported and skipped, and a placeholder stands in its place. -/
theorem statementOrError_error {d : Diagnostic} (h : (inner.statement.run s).value = .error d) :
    (inner.statementOrError s).value =
        .error (synchronize s (report d (inner.statement.run s).next).next).value ∧
      (inner.statementOrError s).next =
        (synchronize s (report d (inner.statement.run s).next).next).next := by
  simp only [Level.statementOrError, value_bind, next_bind, value_state, next_state, h]
  exact ⟨rfl, rfl⟩

end StatementOrError

/-- All that can happen behind a statement. -/
theorem separator_cases (s : State) :
    (s.kind.isSeparator = true ∧ (Level.separator s).next = (advance s).next) ∨
    (s.kind.isSeparator = false ∧ (s.kind = .endOfInput ∨ s.kind = .closeCurly) ∧
      (Level.separator s).next = s) ∨
    (s.kind.isSeparator = false ∧ ¬ (s.kind = .endOfInput ∨ s.kind = .closeCurly) ∧
      (Level.separator s).next =
        (report ⟨.missingSeparator s.token.value, s.token.span⟩ s).next) := by
  have hseparator : Level.separator s =
      (if s.kind.isSeparator = true then (do let _ ← advance)
      else if (s.kind ≠ .endOfInput && s.kind ≠ .closeCurly) = true then
        report ⟨.missingSeparator s.token.value, s.token.span⟩
      else pure () : Parse Unit) s := rfl
  rw [hseparator]
  -- A separator is read, is not needed, or is missing and reported.
  by_cases hread : s.kind.isSeparator = true
  · rw [if_pos hread]
    exact .inl ⟨hread, rfl⟩
  · rw [if_neg hread]
    have hother : s.kind.isSeparator = false := by simpa using hread
    by_cases hmissing : (s.kind ≠ .endOfInput && s.kind ≠ .closeCurly) = true
    · rw [if_pos hmissing]
      refine .inr (.inr ⟨hother, ?_, rfl⟩)
      simpa using hmissing
    · rw [if_neg hmissing]
      refine .inr (.inl ⟨hother, ?_, rfl⟩)
      simp only [ne_eq, Bool.and_eq_true, decide_eq_true_eq] at hmissing
      by_cases hend : s.kind = .endOfInput
      · exact .inl hend
      · exact .inr (Decidable.not_not.1 fun hcurly => hmissing ⟨hend, hcurly⟩)

/-- Where there is no separator, none is read. -/
theorem rest_separator {s : State} (h : s.kind.isSeparator = false) :
    (Level.separator s).next.rest = s.rest := by
  rcases separator_cases s with ⟨hread, _⟩ | ⟨_, _, hnext⟩ | ⟨_, _, hnext⟩
  · rw [h] at hread
    cases hread
  · rw [hnext]
  · rw [hnext]
    rfl

/-- What the next token is when a statement starts there: separators are read before, and the
loop ends at the other two. -/
structure StartsStatement (s : State) : Prop where
  notEnd : s.kind ≠ .endOfInput
  notCurly : s.kind ≠ .closeCurly
  notSeparator : s.kind.isSeparator = false

/-- All tokens but the end, a closing brace and a separator start a statement. -/
theorem startsStatement_of_kind {s : State} {k : Kind} (hkind : s.kind = k)
    (h : k ≠ .endOfInput ∧ k ≠ .closeCurly ∧ k.isSeparator = false) : StartsStatement s := by
  subst hkind
  exact ⟨h.1, h.2.1, h.2.2⟩

section StatementOrNone

variable (inner : Level) {enclosure : Enclosure} {s : State}

/-- There is no statement at the end of the input or of the block. -/
theorem statementOrNone_end (h : s.kind = .endOfInput ∨ s.kind = .closeCurly ∧ enclosure = .block) :
    (inner.statementOrNone enclosure s).value = none ∧
      (inner.statementOrNone enclosure s).next = s := by
  rcases h with h | ⟨h, rfl⟩
  · simp [Level.statementOrNone, h]
  · simp [Level.statementOrNone, h]

/-- In a file a closing brace is reported and taken for a statement in error. -/
theorem statementOrNone_curly (h : s.kind = .closeCurly) :
    (inner.statementOrNone .file s).value = some (.error s.token.span) ∧
      (inner.statementOrNone .file s).next =
        (report ⟨.unexpectedToken s.token.value, s.token.span⟩ (advance s).next).next := by
  simp [Level.statementOrNone, h, value_advance]

/-- Anything else starts a statement. -/
theorem statementOrNone_starts (h : StartsStatement s) :
    (inner.statementOrNone enclosure s).value = some (inner.statementOrError s).value ∧
      (inner.statementOrNone enclosure s).next = (inner.statementOrError s).next := by
  have hend := h.notEnd
  have hcurly := h.notCurly
  simp [Level.statementOrNone]

/-- All that can stand behind the separators. -/
theorem statementOrNone_cases (enclosure : Enclosure) (h : s.kind.isSeparator = false) :
    (s.kind = .endOfInput ∨ s.kind = .closeCurly ∧ enclosure = .block) ∨
      (s.kind = .closeCurly ∧ enclosure = .file) ∨ StartsStatement s := by
  by_cases hend : s.kind = .endOfInput
  · exact .inl (.inl hend)
  by_cases hcurly : s.kind = .closeCurly
  · cases enclosure with
    | block => exact .inl (.inr ⟨hcurly, rfl⟩)
    | file => exact .inr (.inl ⟨hcurly, rfl⟩)
  · exact .inr (.inr ⟨hend, hcurly, h⟩)

/-- A turn where a statement starts reads this statement. -/
theorem turn_starts (h : StartsStatement s) :
    (inner.turn enclosure s).value = some (inner.statementOrError s).value ∧
      (inner.turn enclosure s).next = (inner.statementOrError s).next := by
  obtain ⟨hvalue, hnext⟩ := turn_eq inner enclosure s
  rw [hvalue, hnext, pastSeparators_of_not h.notSeparator]
  exact statementOrNone_starts inner h

/-- No statements are read at the end of the block or input. -/
theorem statements_end (h : s.kind = .endOfInput ∨ s.kind = .closeCurly ∧ enclosure = .block) :
    (inner.statements enclosure s).value = [] ∧ (inner.statements enclosure s).next = s := by
  have hseparator : s.kind.isSeparator = false := by
    rcases h with h | ⟨h, -⟩ <;> rw [h] <;> rfl
  obtain ⟨hvalue, hnext⟩ := turn_eq inner enclosure s
  obtain ⟨hvalue', hnext'⟩ := statementOrNone_end inner h
  rw [pastSeparators_of_not hseparator] at hvalue hnext
  obtain ⟨hnil, hstays⟩ := many_of_none (hvalue.trans hvalue')
  exact ⟨hnil, hstays.trans (hnext.trans hnext')⟩

end StatementOrNone

end Parse

end Sqf
