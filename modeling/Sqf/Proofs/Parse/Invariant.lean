import Sqf.Proofs.Parse.Leaves

/-!
# Invariants of parsers

Whatever a parser does, it does by a few steps: it reads tokens, keeps diagnostics, takes
block numbers, and makes spans and leaves of the tokens that it reads. An `Invariant` is
what these steps keep. `Upholds` says of a parser that it keeps an invariant and that its
value is as wanted, and `UpholdsOrFails` says so of a parser that may fail.
-/

namespace Sqf

/-- Whether a number is at fault, which is reported of a token that is one. -/
def Cause.isMalformedNumber : Cause → Bool
  | malformedNumber _ => true
  | _ => false

namespace Parse

/-- What the steps of a parser keep: a property of its states, and what the spans and leaves that
it makes of its tokens have in common. What is reported may be asked for more than its span. -/
structure Invariant where
  state : State → Prop
  span : Span → Prop
  leaf : Leaf → Prop
  reported : Diagnostic → Prop
  token : ∀ {s}, state s → span s.token.span
  leafOf : ∀ {s l}, state s → s.kind ≠ .endOfInput → l.IsOf s.token → leaf l
  drop : ∀ {s} n, state s → state (s.drop n)
  /-- At the end of input nothing is read but the end itself. -/
  finish : ∀ {s}, s.rest = [] → state s → state { s with lastEnd := s.finish.stop }
  spanReported : ∀ {d}, reported d → span d.span
  plain : ∀ {cause sp}, cause.isMalformedNumber = false → span sp → reported ⟨cause, sp⟩
  number : ∀ {s}, state s → s.kind = .number → Numeral.read? s.token.value = none →
    reported ⟨.malformedNumber s.token.value, s.token.span⟩
  report : ∀ {s d}, state s → reported d →
    state { s with diagnostics := s.diagnostics.push d }
  freshId : ∀ {s}, state s → state { s with nextId := s.nextId + 1 }
  stall : ∀ {s}, state s → state { s with stalled := true }
  pointStart : ∀ {sp : Span}, span sp → span (.point sp.start)
  pointStop : ∀ {sp : Span}, span sp → span (.point sp.stop)
  join : ∀ {sp sp' : Span}, span sp → span sp' → span (sp.join sp')
  spanFrom : ∀ {s sp}, state s → span sp → span (s.spanFrom sp)
  /-- What was read between two states has a span. -/
  passed : ∀ {s t : State}, state s → state t → t.rest <:+ s.rest →
    t.rest.length < s.rest.length → span ⟨s.token.span.start, t.lastEnd⟩

/-- A parser keeps the invariant, and its value is as `Q` says. -/
def Upholds (I : Invariant) (p : Parse α) (Q : α → Prop) (s : State) : Prop :=
  I.state (p s).next ∧ Q (p s).value

/-- What holds of the outcome of a parser that may fail: the failure is like all that is
reported. -/
def Invariant.Outcome (I : Invariant) (Q : α → Prop) : Except Diagnostic α → Prop
  | .ok a => Q a
  | .error d => I.reported d

/-- The same of a parser that may fail. -/
def UpholdsOrFails (I : Invariant) (x : Attempt α) (Q : α → Prop) (s : State) : Prop :=
  Upholds I x.run (I.Outcome Q) s

section Rules

variable {I : Invariant} {s : State} {P : α → Prop} {Q : β → Prop}

/-- Less may be wanted of the value. -/
theorem Upholds.weaken {p : Parse α} {Q : α → Prop} (h : Upholds I p P s)
    (hQ : ∀ a, P a → Q a) : Upholds I p Q s :=
  ⟨h.1, hQ _ h.2⟩

/-- Two parsers uphold an invariant one after the other. Here the value of the first one is still
known. -/
theorem Upholds.bind_run {p : Parse α} {f : α → Parse β} (h : Upholds I p P s)
    (hf : I.state (p s).next → P (p s).value → Upholds I (f (p s).value) Q (p s).next) :
    Upholds I (p >>= f) Q s :=
  hf h.1 h.2

/-- The same when only what was wanted of the first value is used. -/
theorem Upholds.bind {p : Parse α} {f : α → Parse β} (h : Upholds I p P s)
    (hf : ∀ a t, I.state t → P a → Upholds I (f a) Q t) : Upholds I (p >>= f) Q s :=
  h.bind_run (hf _ _)

/-- A parser that reads nothing keeps everything. -/
theorem Upholds.pure {b : β} (hs : I.state s) (h : Q b) : Upholds I (Pure.pure b) Q s :=
  ⟨hs, h⟩

/-- Looking at the kind of the next token keeps everything. -/
theorem Upholds.kind_bind {f : Kind → Parse β} (h : Upholds I (f s.kind) Q s) :
    Upholds I (Parse.kind >>= f) Q s :=
  h

/-- So does looking at the state. -/
theorem Upholds.state_bind {f : State → Parse β} (h : Upholds I (f s) Q s) :
    Upholds I (state >>= f) Q s :=
  h

/-- Reading keeps the invariant, also at the end of the input. -/
theorem Invariant.advance (hs : I.state s) : I.state (Parse.advance s).next := by
  cases hrest : s.rest with
  | nil =>
    rw [next_advance_nil hrest]
    exact I.finish hrest hs
  | cons t ts =>
    have hnext : (Parse.advance s).next = s.drop 1 := by
      rw [next_advance hrest]
      simp [State.drop, hrest]
    rw [hnext]
    exact I.drop 1 hs

/-- A parser that reads a token goes on with that token. -/
theorem Upholds.advance_bind {f : Token → Parse β} (hs : I.state s)
    (hf : I.state (advance s).next → Upholds I (f s.token) Q (advance s).next) :
    Upholds I (Parse.advance >>= f) Q s := by
  have hnext := hf (I.advance hs)
  rw [← value_advance] at hnext
  exact hnext

/-- A diagnostic may be kept if the invariant allows it. -/
theorem Upholds.report_bind {d : Diagnostic} {f : Unit → Parse β} (hs : I.state s)
    (hd : I.reported d) (hf : ∀ t, I.state t → Upholds I (f ()) Q t) :
    Upholds I (Parse.report d >>= f) Q s :=
  hf _ (I.report hs hd)

/-- That a token is unexpected may always be reported, since the token has a span that is
allowed. -/
theorem Invariant.unexpected (hs : I.state s) (expectation : String) :
    I.reported (s.unexpected expectation) := by
  have htoken := I.token hs
  unfold State.unexpected
  split
  · next h =>
    rw [h] at htoken
    exact I.plain rfl htoken
  · next kind value span hne h =>
    rw [h] at htoken
    exact I.plain rfl htoken

/-- So it may be reported anywhere in a parser. -/
theorem Upholds.reportUnexpected_bind {expectation : String} {f : Unit → Parse β}
    (hs : I.state s) (hf : ∀ t, I.state t → Upholds I (f ()) Q t) :
    Upholds I (Parse.reportUnexpected expectation >>= f) Q s :=
  hf _ (I.report hs (I.unexpected hs expectation))

/-- Tokens may be dropped. -/
theorem Upholds.skip_bind {n : Nat} {f : Unit → Parse β} (hs : I.state s)
    (hf : ∀ t, I.state t → Upholds I (f ()) Q t) : Upholds I (Parse.skip n >>= f) Q s :=
  hf _ (I.drop n hs)

/-- Tokens may be dropped up to one that is looked for. -/
theorem Upholds.skipUntil_bind {stops : List Kind} {f : Unit → Parse β} (hs : I.state s)
    (hf : ∀ t, I.state t → Upholds I (f ()) Q t) :
    Upholds I (Parse.skipUntil stops >>= f) Q s :=
  hf _ (I.drop _ hs)

/-- A block number may be taken. -/
theorem Upholds.freshId_bind {f : Nat → Parse β} (hs : I.state s)
    (hf : ∀ id t, I.state t → Upholds I (f id) Q t) : Upholds I (Parse.freshId >>= f) Q s :=
  hf _ _ (I.freshId hs)

/-- A span that starts where an allowed one does is allowed. -/
theorem Upholds.spanFrom_bind {start : Span} {f : Span → Parse β} (hs : I.state s)
    (hstart : I.span start) (hf : ∀ span, I.span span → Upholds I (f span) Q s) :
    Upholds I (Parse.spanFrom start >>= f) Q s :=
  hf _ (I.spanFrom hs hstart)

/-- Less may be wanted of the value; the diagnostic of a failure stays allowed. -/
theorem UpholdsOrFails.weaken {x : Attempt α} {Q : α → Prop} (h : UpholdsOrFails I x P s)
    (hQ : ∀ a, P a → Q a) : UpholdsOrFails I x Q s := by
  refine Upholds.weaken h fun outcome houtcome => ?_
  cases outcome with
  | ok a => exact hQ a houtcome
  | error d => exact houtcome

/-- Parsers that may fail uphold an invariant one after the other. -/
theorem UpholdsOrFails.bind_run {x : Attempt α} {f : α → Attempt β} (h : UpholdsOrFails I x P s)
    (hf : ∀ a, I.state (x.run s).next → P a → UpholdsOrFails I (f a) Q (x.run s).next) :
    UpholdsOrFails I (x >>= f) Q s := by
  obtain ⟨hnext, houtcome⟩ := h
  unfold UpholdsOrFails Upholds
  cases hx : (x.run s).value with
  | error d =>
    rw [(Attempt.bind_error hx).1, (Attempt.bind_error hx).2]
    rw [hx] at houtcome
    exact ⟨hnext, houtcome⟩
  | ok a =>
    rw [(Attempt.bind_ok hx).1, (Attempt.bind_ok hx).2]
    rw [hx] at houtcome
    exact hf a hnext houtcome

/-- The same when only what was wanted of the first value is used. -/
theorem UpholdsOrFails.bind {x : Attempt α} {f : α → Attempt β} (h : UpholdsOrFails I x P s)
    (hf : ∀ a t, I.state t → P a → UpholdsOrFails I (f a) Q t) :
    UpholdsOrFails I (x >>= f) Q s :=
  h.bind_run fun a ht hP => hf a _ ht hP

theorem UpholdsOrFails.pure {b : β} (hs : I.state s) (h : Q b) :
    UpholdsOrFails I (Pure.pure b) Q s :=
  ⟨hs, h⟩

/-- A failure has to come with a diagnostic that is allowed. -/
theorem UpholdsOrFails.throw {d : Diagnostic} (hs : I.state s) (hd : I.reported d) :
    UpholdsOrFails I (MonadExcept.throw d) Q s :=
  ⟨hs, hd⟩

/-- A failure at an unexpected token does. -/
theorem UpholdsOrFails.failUnexpected (hs : I.state s) (expectation : String) :
    UpholdsOrFails I (Parse.failUnexpected expectation) Q s :=
  .throw hs (I.unexpected hs expectation)

/-- A parser that does not fail goes before one that may. -/
theorem UpholdsOrFails.lift_bind {p : Parse α} {f : α → Attempt β} (h : Upholds I p P s)
    (hf : ∀ a t, I.state t → P a → UpholdsOrFails I (f a) Q t) :
    UpholdsOrFails I (liftM p >>= f) Q s :=
  UpholdsOrFails.bind (P := P) ⟨h.1, h.2⟩ hf

theorem UpholdsOrFails.kind_bind {f : Kind → Attempt β} (h : UpholdsOrFails I (f s.kind) Q s) :
    UpholdsOrFails I (liftM Parse.kind >>= f) Q s :=
  h

theorem UpholdsOrFails.state_bind {f : State → Attempt β} (h : UpholdsOrFails I (f s) Q s) :
    UpholdsOrFails I (liftM Parse.state >>= f) Q s :=
  h

/-- Reading a token, in a parser that may fail. -/
theorem UpholdsOrFails.advance_bind {f : Token → Attempt β} (hs : I.state s)
    (hf : I.state (advance s).next → UpholdsOrFails I (f s.token) Q (advance s).next) :
    UpholdsOrFails I (liftM Parse.advance >>= f) Q s :=
  Upholds.advance_bind (f := fun t => (f t).run) hs hf

/-- Making a span, in a parser that may fail. -/
theorem UpholdsOrFails.spanFrom_bind {start : Span} {f : Span → Attempt β} (hs : I.state s)
    (hstart : I.span start) (hf : ∀ span, I.span span → UpholdsOrFails I (f span) Q s) :
    UpholdsOrFails I (liftM (Parse.spanFrom start) >>= f) Q s :=
  hf _ (I.spanFrom hs hstart)

/-- A token that is expected is read, or the parser fails. -/
theorem UpholdsOrFails.expect {k : Kind} (hs : I.state s) (expectation : String) :
    UpholdsOrFails I (Parse.expect k expectation) (fun t => t = s.token ∧ s.kind = k) s := by
  unfold Parse.expect
  refine UpholdsOrFails.kind_bind ?_
  split
  · next hk => exact ⟨I.advance hs, value_advance s, hk⟩
  · exact UpholdsOrFails.failUnexpected hs _

end Rules

/-! ## Loops -/

section Loops

variable {I : Invariant}

/-- Turns are made one after the other; the recursion is over the tokens left. -/
theorem many_upholds {turn : Parse (Option α)} {Q : α → Prop}
    (hturn : ∀ s, I.state s → Upholds I turn (fun found => ∀ a ∈ found, Q a) s) (s : State)
    (hs : I.state s) : Upholds I (many turn) (fun as => ∀ a ∈ as, Q a) s := by
  obtain ⟨hnext, hfound⟩ := hturn s hs
  cases hvalue : (turn s).value with
  | none =>
    obtain ⟨hnone, hsame⟩ := many_of_none hvalue
    rw [Upholds, hnone, hsame]
    exact ⟨hnext, nofun⟩
  | some a =>
    have ha : Q a := hfound a hvalue
    by_cases hlt : (turn s).next.rest.length < s.rest.length
    · obtain ⟨hothersNext, hothers⟩ := many_upholds hturn (turn s).next hnext
      obtain ⟨hsome, hsame⟩ := many_of_some hvalue hlt
      rw [Upholds, hsome, hsame]
      exact ⟨hothersNext, List.forall_mem_cons.2 ⟨ha, hothers⟩⟩
    · -- A turn that reads no token is the last one.
      obtain ⟨hstuck, hsame⟩ := many_of_stuck hvalue hlt
      rw [Upholds, hstuck, hsame]
      exact ⟨I.stall hnext, List.forall_mem_singleton.2 ha⟩
termination_by s.rest.length

/-- Items are read one after the other; the recursion is over the tokens left. -/
theorem commaList_upholds {closer : Kind} (hcloser : closer ≠ .endOfInput) (expectation : String)
    {item : Attempt α} {Q : α → Prop} (hitem : ∀ s, I.state s → UpholdsOrFails I item Q s)
    (s : State) (hs : I.state s) :
    UpholdsOrFails I (commaList closer expectation item) (fun as => ∀ a ∈ as, Q a) s := by
  rw [commaList_eq hcloser]
  refine UpholdsOrFails.kind_bind ?_
  split
  · exact UpholdsOrFails.pure hs nofun
  · refine (hitem s hs).bind_run fun a ht ha => UpholdsOrFails.kind_bind ?_
    split
    · next hcomma =>
      -- Behind a comma the list is shorter, which ends the induction.
      have hle := length_next_le item.run s
      have hread := length_advance (s := (item.run s).next) (by rw [hcomma]; decide)
      refine UpholdsOrFails.advance_bind ht fun hu => ?_
      refine (commaList_upholds hcloser expectation hitem _ hu).bind fun as v hv has => ?_
      exact UpholdsOrFails.pure hv (List.forall_mem_cons.2 ⟨ha, has⟩)
    · split
      · exact UpholdsOrFails.pure ht (List.forall_mem_singleton.2 ha)
      · exact UpholdsOrFails.failUnexpected ht _
termination_by s.rest.length

end Loops

/-! ## Going on after an error -/

section Recovery

variable {I : Invariant} {s : State} {Q : β → Prop}

/-- The span from where a parser started to where it stands. -/
theorem Invariant.region {t : State} (hs : I.state s) (ht : I.state t) (h : t.rest <:+ s.rest) :
    I.span (if t.rest.length < s.rest.length then ⟨s.token.span.start, t.lastEnd⟩
      else .point s.token.span.start) := by
  split
  · next hlt => exact I.passed hs ht h hlt
  · exact I.pointStart (I.token hs)

/-- What is nested too deep is dropped, and its span is allowed. -/
theorem skipNested_upholds (hs : I.state s) : Upholds I skipNested I.span s := by
  have hdeep : I.reported ⟨.nestingTooDeep maxNesting, s.token.span⟩ := I.plain rfl (I.token hs)
  have hreported := I.report hs hdeep
  have hdropped := I.drop (nestedLength 0 s.rest) hreported
  exact ⟨hdropped, I.region hreported hdropped (List.drop_suffix _ _)⟩

/-- What is left of a statement is dropped, and the span of all of it is allowed. -/
theorem synchronize_upholds {start : State} (hstart : I.state start) (hs : I.state s)
    (h : s.rest <:+ start.rest) : Upholds I (synchronize start) I.span s := by
  have hdropped := I.drop (statementLength 0 (openGroups (s.readSince start)) s.rest) hs
  exact ⟨hdropped, I.region hstart hdropped ((List.drop_suffix _ _).trans h)⟩

end Recovery

end Parse

end Sqf
