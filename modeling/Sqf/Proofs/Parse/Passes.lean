import Sqf.Proofs.Parse.Passage

/-!
# Parsers whose values are read

`Passes` says of a parser that its value is made of nodes that are read between the states around
it, and `PassesOrFails` says so of a parser that may fail. There is one rule for each way in which
parsers are put together.
-/

namespace Sqf.Parse

/-- The value of a parser is related by `Q` to the nodes that it reads and the state it leaves. -/
def Passes (m : Manner) (p : Parse α) (Q : α → List Node → State → Prop) (s : State) : Prop :=
  ∃ ns, Passage m s ns (p s).next ∧ Q (p s).value ns (p s).next

/-- A parser gives this value, and stops in this state. -/
def Leads (p : Parse α) (s : State) (a : α) (t : State) : Prop :=
  (p s).value = a ∧ (p s).next = t

theorem Leads.bind {p : Parse α} {f : α → Parse β} {s t u : State} {a : α} {b : β}
    (h : Leads p s a t) (hf : Leads (f a) t b u) : Leads (p >>= f) s b u := by
  obtain ⟨rfl, rfl⟩ := h
  exact hf

/-- What holds of the outcome of a parser that may fail: it fails at the next token, and what it
has read is lost. -/
def OnOutcome (Q : α → List Node → State → Prop) :
    Except Diagnostic α → List Node → State → Prop
  | .ok a, ns, t => Q a ns t
  | .error d, _, t => d.span = t.token.span

/-- The same of a parser that may fail. -/
def PassesOrFails (x : Attempt α) (Q : α → List Node → State → Prop) (s : State) : Prop :=
  Passes .whole x.run (OnOutcome Q) s

section Rules

variable {m : Manner} {s : State} {P : α → List Node → State → Prop}
  {Q : β → List Node → State → Prop}

/-- A parser that passes leaves a state that is reached. -/
theorem Passes.reaches {p : Parse α} (h : Passes m p P s) : s.Reaches (p s).next := by
  obtain ⟨ns, hreads, -⟩ := h
  exact hreads.reaches

/-- Less may be said of what is read. -/
theorem Passes.weaken {p : Parse α} {Q : α → List Node → State → Prop} (h : Passes m p P s)
    (hQ : ∀ a ns t, P a ns t → Q a ns t) : Passes m p Q s := by
  obtain ⟨ns, hreads, hP⟩ := h
  exact ⟨ns, hreads, hQ _ _ _ hP⟩

/-- What is read as whole nodes may be taken as parts of one. -/
theorem Passes.parts {p : Parse α} (h : Passes .whole p P s) : Passes .parts p P s := by
  obtain ⟨ns, hreads, hP⟩ := h
  exact ⟨ns, .part hreads, hP⟩

/-- The nodes of two parsers stand one behind the other. Here the value of the first one is still
known. -/
theorem Passes.bind_run {p : Parse α} {f : α → Parse β} (h : Passes m p P s)
    (hf : Passes m (f (p s).value)
      (fun b ms u => ∀ ns, P (p s).value ns (p s).next → Q b (ns ++ ms) u) (p s).next) :
    Passes m (p >>= f) Q s := by
  obtain ⟨ns, hreads, hP⟩ := h
  obtain ⟨ms, hreads', hQ⟩ := hf
  exact ⟨ns ++ ms, hreads.append hreads', hQ ns hP⟩

/-- The same for any value that the first one may have. -/
theorem Passes.bind {p : Parse α} {f : α → Parse β} (h : Passes m p P s)
    (hf : ∀ a t, Passes m (f a) (fun b ms u => ∀ ns, P a ns t → Q b (ns ++ ms) u) t) :
    Passes m (p >>= f) Q s :=
  h.bind_run (hf _ _)

/-- A parser that reads nothing has no nodes. -/
theorem Passes.pure {b : β} (h : Q b [] s) : Passes m (Pure.pure b) Q s :=
  ⟨[], .pass .refl, h⟩

/-- A parser that gives no nodes goes before another one. -/
theorem Passes.quiet_bind {p : Parse α} {f : α → Parse β} (h : s.Reaches (p s).next)
    (hf : Passes m (f (p s).value) Q (p s).next) : Passes m (p >>= f) Q s := by
  obtain ⟨ns, hreads, hQ⟩ := hf
  exact ⟨ns, (Passage.pass h).append hreads, hQ⟩

theorem Passes.kind_bind {f : Kind → Parse β} (h : Passes m (f s.kind) Q s) :
    Passes m (Parse.kind >>= f) Q s :=
  h

theorem Passes.state_bind {f : State → Parse β} (h : Passes m (f s) Q s) :
    Passes m (state >>= f) Q s :=
  h

/-- A token alone is no node. -/
theorem Passes.advance_bind {f : Token → Parse β}
    (hf : Passes m (f s.token) Q (Parse.advance s).next) :
    Passes m (Parse.advance >>= f) Q s := by
  rw [← value_advance] at hf
  exact Passes.quiet_bind (reaches_advance s) hf

/-- A diagnostic may be kept on the way. -/
theorem Passes.report_bind {d : Diagnostic} {f : Unit → Parse β}
    (hf : Passes m (f ()) Q (Parse.report d s).next) : Passes m (Parse.report d >>= f) Q s :=
  Passes.quiet_bind (reaches_report d s) hf

/-- So may one for an unexpected token. -/
theorem Passes.reportUnexpected_bind {expectation : String} {f : Unit → Parse β}
    (hf : ∀ t, Passes m (f ()) Q t) :
    Passes m (Parse.reportUnexpected expectation >>= f) Q s :=
  Passes.quiet_bind (reaches_report _ s) (hf _)

/-- Tokens may be passed over on the way. -/
theorem Passes.skipUntil_bind {stops : List Kind} {f : Unit → Parse β}
    (hf : ∀ t, Passes m (f ()) Q t) : Passes m (Parse.skipUntil stops >>= f) Q s :=
  Passes.quiet_bind (reaches_drop s _) (hf _)

theorem Passes.spanFrom_bind {start : Span} {f : Span → Parse β}
    (hf : Passes m (f (s.spanFrom start)) Q s) : Passes m (Parse.spanFrom start >>= f) Q s :=
  hf

/-- The outcome of a parser that may fail is looked at. -/
theorem Passes.run_bind {x : Attempt α} {f : Except Diagnostic α → Parse β}
    (h : PassesOrFails x P s)
    (hok : ∀ a t, Passes m (f (.ok a)) (fun b ms u => ∀ ns, P a ns t → Q b (ns ++ ms) u) t)
    (herror : ∀ d t, s.Reaches t → d.span = t.token.span → Passes m (f (.error d)) Q t) :
    Passes m (x.run >>= f) Q s := by
  obtain ⟨ns, hreads, houtcome⟩ := h
  have hreaches := hreads.reaches
  have hpart : Passage m s ns (x.run s).next := by
    cases m with
    | whole => exact hreads
    | parts => exact .part hreads
  unfold Passes
  rw [value_bind, next_bind]
  -- The nodes that were read before a failure are lost, but the state has been reached.
  cases hvalue : (x.run s).value with
  | ok a =>
    rw [hvalue] at houtcome
    obtain ⟨ms, hreads', hQ⟩ := hok a (x.run s).next
    exact ⟨ns ++ ms, hpart.append hreads', hQ ns houtcome⟩
  | error d =>
    rw [hvalue] at houtcome
    obtain ⟨ms, hreads', hQ⟩ := herror d _ hreaches houtcome
    exact ⟨ms, (Passage.pass hreaches).append hreads', hQ⟩

/-- Less may be said of what is read. -/
theorem PassesOrFails.weaken {x : Attempt α} {Q : α → List Node → State → Prop}
    (h : PassesOrFails x P s) (hQ : ∀ a ns t, P a ns t → Q a ns t) : PassesOrFails x Q s := by
  refine Passes.weaken h fun outcome ns t hns => ?_
  cases outcome with
  | ok a => exact hQ a ns t hns
  | error d => exact hns

/-- What is read of it is kept in mind. -/
theorem PassesOrFails.attach {x : Attempt α} (h : PassesOrFails x P s) :
    PassesOrFails x (fun a ns t => P a ns t ∧ Passage .whole s ns t) s := by
  obtain ⟨ns, hreads, hns⟩ := h
  refine ⟨ns, hreads, ?_⟩
  cases hx : (x.run s).value with
  | ok a =>
    rw [hx] at hns
    exact ⟨hns, hreads⟩
  | error d =>
    rw [hx] at hns
    exact hns

/-- The nodes that have been read are put together. -/
theorem PassesOrFails.collect {x : Attempt α} {nodes : α → List Node} (h : PassesOrFails x P s)
    (hnodes : ∀ a ns t, Passage .whole s ns t → P a ns t → Passage .whole s (nodes a) t) :
    PassesOrFails x (fun a ns _ => ns = nodes a) s := by
  obtain ⟨ns, hreads, hns⟩ := h
  unfold PassesOrFails Passes
  cases hx : (x.run s).value with
  | ok a =>
    rw [hx] at hns
    exact ⟨_, hnodes a ns _ hreads hns, rfl⟩
  | error d =>
    rw [hx] at hns
    exact ⟨ns, hreads, hns⟩

/-- Parsers that may fail read their nodes one behind the other. Here the value of the first one is
still known. -/
theorem PassesOrFails.bind_run {x : Attempt α} {f : α → Attempt β} (h : PassesOrFails x P s)
    (hf : ∀ a, (x.run s).value = .ok a →
      PassesOrFails (f a) (fun b ms u => ∀ ns, P a ns (x.run s).next → Q b (ns ++ ms) u)
        (x.run s).next) :
    PassesOrFails (x >>= f) Q s := by
  obtain ⟨ns, hreads, hP⟩ := h
  unfold PassesOrFails Passes
  -- If the first part fails, that is the outcome of the whole; otherwise the second part decides.
  cases hx : (x.run s).value with
  | error d =>
    rw [(Attempt.bind_error hx).1, (Attempt.bind_error hx).2]
    rw [hx] at hP
    exact ⟨ns, hreads, hP⟩
  | ok a =>
    rw [hx] at hP
    rw [(Attempt.bind_ok hx).1, (Attempt.bind_ok hx).2]
    obtain ⟨ms, hreads', hms⟩ := hf a hx
    refine ⟨ns ++ ms, hreads.append hreads', ?_⟩
    cases hfa : ((f a).run (x.run s).next).value with
    | error d =>
      rw [hfa] at hms
      exact hms
    | ok b =>
      rw [hfa] at hms
      exact hms ns hP

/-- The same for any value that the first one may have. -/
theorem PassesOrFails.bind {x : Attempt α} {f : α → Attempt β} (h : PassesOrFails x P s)
    (hf : ∀ a t, PassesOrFails (f a) (fun b ms u => ∀ ns, P a ns t → Q b (ns ++ ms) u) t) :
    PassesOrFails (x >>= f) Q s :=
  h.bind_run fun a _ => hf a _

theorem PassesOrFails.pure {b : β} (h : Q b [] s) : PassesOrFails (Pure.pure b) Q s :=
  Passes.pure (Q := OnOutcome Q) h

/-- A failure is one at the next token. -/
theorem PassesOrFails.throw {d : Diagnostic} (h : d.span = s.token.span) :
    PassesOrFails (MonadExcept.throw d) Q s :=
  ⟨[], .pass .refl, h⟩

/-- An unexpected token is the next one. -/
theorem PassesOrFails.failUnexpected (expectation : String) :
    PassesOrFails (Parse.failUnexpected expectation) Q s :=
  PassesOrFails.throw (span_unexpected s expectation)

/-- A parser that does not fail goes before one that may. -/
theorem PassesOrFails.lift_bind {p : Parse α} {f : α → Attempt β} (h : Passes .whole p P s)
    (hf : ∀ a t, PassesOrFails (f a) (fun b ms u => ∀ ns, P a ns t → Q b (ns ++ ms) u) t) :
    PassesOrFails (liftM p >>= f) Q s := by
  refine PassesOrFails.bind_run (P := P) ?_ fun a _ => hf a _
  obtain ⟨ns, hreads, hP⟩ := h
  exact ⟨ns, hreads, hP⟩

theorem PassesOrFails.kind_bind {f : Kind → Attempt β} (h : PassesOrFails (f s.kind) Q s) :
    PassesOrFails (liftM Parse.kind >>= f) Q s :=
  h

theorem PassesOrFails.state_bind {f : State → Attempt β} (h : PassesOrFails (f s) Q s) :
    PassesOrFails (liftM Parse.state >>= f) Q s :=
  h

theorem PassesOrFails.advance_bind {f : Token → Attempt β}
    (hf : PassesOrFails (f s.token) Q (Parse.advance s).next) :
    PassesOrFails (liftM Parse.advance >>= f) Q s :=
  Passes.advance_bind (f := fun t => (f t).run) hf

/-- The nodes that are read behind the next token are put together with it. -/
theorem PassesOrFails.advance_collect {f : Token → Attempt α} {nodes : α → List Node}
    (h : PassesOrFails (f s.token) P (Parse.advance s).next)
    (hnodes : ∀ a ns t, Passage .whole (Parse.advance s).next ns t → P a ns t →
      Passage .whole s (nodes a) t) :
    PassesOrFails (liftM Parse.advance >>= f) (fun a ns _ => ns = nodes a) s := by
  have hbehind : PassesOrFails (liftM Parse.advance >>= f)
      (fun a _ t => ∃ ns, Passage .whole (Parse.advance s).next ns t ∧ P a ns t) s := by
    refine PassesOrFails.advance_bind (h.attach.weaken ?_)
    exact fun a ns t hns => ⟨ns, hns.2, hns.1⟩
  refine hbehind.collect ?_
  rintro a _ t - ⟨ns, hreads, hP⟩
  exact hnodes a ns t hreads hP

/-- A token that is expected is no node, and its absence is a failure at the next token. -/
theorem PassesOrFails.expect_bind {k : Kind} {expectation : String} {f : Token → Attempt β}
    (hf : ∀ t u, PassesOrFails (f t) Q u) :
    PassesOrFails (Parse.expect k expectation >>= f) Q s := by
  have hexpect : PassesOrFails (Parse.expect k expectation) (fun _ ns _ => ns = []) s := by
    unfold Parse.expect
    refine PassesOrFails.kind_bind ?_
    split
    · exact PassesOrFails.advance_bind (f := fun t => (Pure.pure t : Attempt Token))
        (PassesOrFails.pure rfl)
    · exact PassesOrFails.failUnexpected _
  refine hexpect.bind fun t u => (hf t u).weaken ?_
  rintro b ms v hQ _ rfl
  exact hQ

end Rules

end Sqf.Parse
