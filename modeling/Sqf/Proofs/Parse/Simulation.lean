import Sqf.Proofs.Parse.Steps
import Sqf.Proofs.Tree.Recast

/-!
# Two runs side by side

Many facts about reading compare two runs: the same tokens with others behind
them, with other block numbers, with another table. `Simulation` says once what
has to be shown for such a comparison: a relation between the states of the two
runs that every primitive parser keeps. `Simulation.level` concludes that all of
the reading keeps it, and that the two runs give the same trees and reports up to
a recast.

The relation has an index, which counts the braces that were opened since the
runs began; it tells how far the relation is from the end of the blocks around.
-/

namespace Sqf.Parse

/-! ## Agreement of two parsers -/

/-- The two parsers give related values and leave related states. -/
def Agree (V : α → β → Prop) (R : State → State → Prop) (p : Parse α) (q : Parse β)
    (s s' : State) : Prop :=
  V (p s).value (q s').value ∧ R (p s).next (q s').next

/-- Either both parsers give a value, or both fail with the same report up to a recast. -/
inductive Outcome (r : Recast) (V : α → β → Prop) :
    Except Diagnostic α → Except Diagnostic β → Prop
  | ok {a : α} {b : β} (h : V a b) : Outcome r V (.ok a) (.ok b)
  | error (d : Diagnostic) : Outcome r V (.error (r.diagnostic d)) (.error d)

/-- Agreement of two parsers that may fail. -/
def AgreeOrFail (r : Recast) (V : α → β → Prop) (R : State → State → Prop) (x : Attempt α)
    (y : Attempt β) (s s' : State) : Prop :=
  Agree (Outcome r V) R x.run y.run s s'

section Rules

variable {r : Recast} {V : α → α' → Prop} {W : β → β' → Prop} {R R' R'' : State → State → Prop}
  {s s' : State}

/-- Two runs that agree on a first part agree on what follows from it. -/
theorem Agree.bind {p : Parse α} {q : Parse α'} {f : α → Parse β} {g : α' → Parse β'}
    (h : Agree V R p q s s')
    (hf : ∀ a a' t t', V a a' → R t t' → Agree W R' (f a) (g a') t t') :
    Agree W R' (p >>= f) (q >>= g) s s' :=
  hf _ _ _ _ h.1 h.2

/-- Values that are given agree if they are related. -/
theorem Agree.pure {a : α} {a' : α'} (hv : V a a') (hs : R s s') :
    Agree V R (Pure.pure a) (Pure.pure a') s s' :=
  ⟨hv, hs⟩

/-- What the first parser leaves is an end piece of what it was given. -/
theorem Agree.suffix {p : Parse α} {q : Parse α'} (h : Agree V R p q s s') :
    Agree V (fun t t' => R t t' ∧ t.rest <:+ s.rest) p q s s' :=
  ⟨h.1, h.2, (p s).suffix⟩

/-- Both runs may look at their own state. -/
theorem Agree.state_bind {f : State → Parse β} {g : State → Parse β'}
    (h : Agree W R (f s) (g s') s s') : Agree W R (state >>= f) (state >>= g) s s' :=
  h

/-- So may parsers that can fail. -/
theorem AgreeOrFail.state_bind {f : State → Attempt β} {g : State → Attempt β'}
    (h : AgreeOrFail r W R (f s) (g s') s s') :
    AgreeOrFail r W R (liftM state >>= f) (liftM state >>= g) s s' :=
  h

/-- The second part may be taken to start where the first one stopped with a value. -/
theorem AgreeOrFail.bind_run {x : Attempt α} {y : Attempt α'} {f : α → Attempt β}
    {g : α' → Attempt β'} (h : AgreeOrFail r V R x y s s')
    (hf : ∀ a a', (x.run s).value = .ok a → V a a' → R (x.run s).next (y.run s').next →
      AgreeOrFail r W R (f a) (g a') (x.run s).next (y.run s').next) :
    AgreeOrFail r W R (x >>= f) (y >>= g) s s' := by
  rcases h with ⟨hv, hs⟩
  generalize hx : (x.run s).value = outcome at hv
  generalize hy : (y.run s').value = outcome' at hv
  cases hv with
  | ok hv =>
    rcases Attempt.bind_ok (f := f) hx with ⟨hxv, hxn⟩
    rcases Attempt.bind_ok (f := g) hy with ⟨hyv, hyn⟩
    rcases hf _ _ hx hv hs with ⟨hv', hs'⟩
    exact ⟨by rw [hxv, hyv]; exact hv', by rw [hxn, hyn]; exact hs'⟩
  | error d =>
    rcases Attempt.bind_error (f := f) hx with ⟨hxv, hxn⟩
    rcases Attempt.bind_error (f := g) hy with ⟨hyv, hyn⟩
    exact ⟨by rw [hxv, hyv]; exact .error d, by rw [hxn, hyn]; exact hs⟩

/-- Runs that may fail do so together, or go on together. -/
theorem AgreeOrFail.bind {x : Attempt α} {y : Attempt α'} {f : α → Attempt β}
    {g : α' → Attempt β'} (h : AgreeOrFail r V R x y s s')
    (hf : ∀ a a' t t', V a a' → R t t' → AgreeOrFail r W R (f a) (g a') t t') :
    AgreeOrFail r W R (x >>= f) (y >>= g) s s' :=
  h.bind_run fun a a' _ hv hs => hf a a' _ _ hv hs

/-- The same after a part that cannot fail. -/
theorem AgreeOrFail.lift_bind {p : Parse α} {q : Parse α'} {f : α → Attempt β}
    {g : α' → Attempt β'} (h : Agree V R p q s s')
    (hf : ∀ a a' t t', V a a' → R t t' → AgreeOrFail r W R' (f a) (g a') t t') :
    AgreeOrFail r W R' (liftM p >>= f) (liftM q >>= g) s s' :=
  hf _ _ _ _ h.1 h.2

/-- Values that are given agree if they are related. -/
theorem AgreeOrFail.pure {a : α} {a' : α'} (hv : V a a') (hs : R s s') :
    AgreeOrFail r V R (Pure.pure a) (Pure.pure a') s s' :=
  ⟨.ok hv, hs⟩

/-- Two failures have to report the same, up to the recast. -/
theorem AgreeOrFail.throw {d d' : Diagnostic} (hd : d = r.diagnostic d') (hs : R s s') :
    AgreeOrFail r V R (MonadExcept.throw d) (MonadExcept.throw d') s s' := by
  subst hd
  exact ⟨.error d', hs⟩

end Rules

/-- A token of this kind neither opens nor closes a block and does not end a statement, and it
is not the end of input. -/
def inStatement : Kind → Bool
  | .endOfInput | .openCurly | .closeCurly | .semicolon => false
  | _ => true

/-- A relation between the states of two runs that the primitive parsers keep. At the
indices with `Loops` it is also kept by what stands between two statements. The index goes
down where a block ends, be it that its closing brace is missing (`weaken`). -/
structure Simulation (table table' : Table) (r : Recast) (Rel : Nat → State → State → Prop)
    (Loops : Nat → Prop) : Prop where
  loops_succ : ∀ k, Loops (k + 1)
  span : ∀ x, r.span x = x
  kind : ∀ {k s s'}, Rel k s s' → s.kind = s'.kind
  place : ∀ {k s s'}, Rel k s s' → s.token.span = s'.token.span
  text : ∀ {k s s'}, Rel k s s' → s.kind ≠ .endOfInput → s.token.value = r.text s'.token.value
  isLocal : ∀ {k s s'}, Rel k s s' → s.kind = .identifier →
    isLocalName s.token.value = isLocalName s'.token.value
  numeral : ∀ {k s s'}, Rel k s s' → s.kind = .number →
    Numeral.read? s.token.value = Numeral.read? s'.token.value
  tier : ∀ {k s s'}, Rel k s s' → s.kind ≠ .endOfInput →
    table.tier? s.token = table'.tier? s'.token
  startsOperand : ∀ {k s s'}, Rel k s s' →
    table.startsOperand s.rest = table'.startsOperand s'.rest
  assigns : ∀ {k s s'}, Rel k s s' → s.kind = .identifier →
    (s.kindAt 1 = .assignment ↔ s'.kindAt 1 = .assignment)
  assignsPrivately : ∀ {k s s'}, Rel k s s' → s.kind = .privateWord →
    (s.kindAt 1 = .identifier ∧ s.kindAt 2 = .assignment ↔
      s'.kindAt 1 = .identifier ∧ s'.kindAt 2 = .assignment)
  lastEnd : ∀ {k s s'}, Rel k s s' → s.lastEnd = s'.lastEnd
  shorter : ∀ {k s s' t t'}, Rel k s s' → Rel k t t' →
    (t.rest.length < s.rest.length ↔ t'.rest.length < s'.rest.length)
  advance : ∀ {k s s'}, Rel k s s' → s.kind ≠ .endOfInput → s.kind ≠ .openCurly →
    s.kind ≠ .closeCurly → (s.kind = .semicolon → Loops k) →
    Rel k (advance s).next (Parse.advance s').next
  enter : ∀ {k s s'}, Rel k s s' → s.kind = .openCurly →
    Rel (k + 1) (Parse.advance s).next (Parse.advance s').next
  leave : ∀ {k s s'}, Rel (k + 1) s s' → s.kind = .closeCurly →
    Rel k (Parse.advance s).next (Parse.advance s').next
  weaken : ∀ {k s s'}, Rel (k + 1) s s' → Rel k s s'
  report : ∀ {k s s'} (d : Diagnostic), Rel k s s' →
    Rel k (report (r.diagnostic d) s).next (Parse.report d s').next
  nextId : ∀ {k s s'}, Rel k s s' → s.nextId = r.id s'.nextId
  freshId : ∀ {k s s'}, Rel k s s' → Rel k (freshId s).next (Parse.freshId s').next
  stall : ∀ {k s s'}, Rel k s s' → Rel k (stall s).next (stall s').next
  dropNested : ∀ {k s s'}, Rel k s s' →
    Rel k (s.drop (nestedLength 0 s.rest)) (s'.drop (nestedLength 0 s'.rest))
  dropUntil : ∀ {k s s'} (stops : List Kind), Rel k s s' →
    Rel k (s.drop (untilLength stops 0 s.rest)) (s'.drop (untilLength stops 0 s'.rest))
  dropStatement : ∀ {k s s' t t'}, Loops k → Rel k s s' → Rel k t t' → t.rest <:+ s.rest →
    Rel k (t.drop (statementLength 0 (openGroups (t.readSince s)) t.rest))
      (t'.drop (statementLength 0 (openGroups (t'.readSince s')) t'.rest))
  dropSeparators : ∀ {k s s'}, Loops k → Rel k s s' →
    Rel k (s.drop (Level.separators s.rest)) (s'.drop (Level.separators s'.rest))

/-- The parsers for what stands inside of a construct agree. -/
structure LevelsAgree (r : Recast) (Rel : Nat → State → State → Prop) (inner inner' : Level) :
    Prop where
  expr : ∀ {k s s'} (tier : Tier), Rel k s s' →
    AgreeOrFail r (fun e e' => e = r.expr e') (Rel k) (inner.expr tier) (inner'.expr tier) s s'
  block : ∀ {k s s'}, Rel k s s' → s.kind = .openCurly →
    Agree (fun b b' => b = r.block b') (Rel k) inner.block inner'.block s s'

namespace Simulation

variable {table table' : Table} {r : Recast} {Rel : Nat → State → State → Prop}
  {Loops : Nat → Prop} (sim : Simulation table table' r Rel Loops) {inner inner' : Level}
  {k : Nat} {s s' : State}

include sim

/-! ## Primitive parsers -/

/-- The next token is the same up to the recast. -/
theorem token (h : Rel k s s') (hne : s.kind ≠ .endOfInput) : s.token = r.token s'.token := by
  have hkind : s.token.kind = s'.token.kind := sim.kind h
  have htext := sim.text h hne
  have hplace := sim.place h
  cases ht : s.token with
  | mk kind value span =>
    simp only [ht] at hkind htext hplace
    simp only [Recast.token, sim.span, ← hkind, ← htext, ← hplace]

/-- Both runs read it, if it is none that ends statements or blocks. -/
theorem agree_advance (h : Rel k s s') {kind : Kind} (hk : s.kind = kind)
    (hin : inStatement kind = true) :
    Agree (fun t t' => t = r.token t') (Rel k) Parse.advance Parse.advance s s' := by
  have hne : ∀ other, inStatement other = false → s.kind ≠ other := by
    rintro other hother rfl
    rw [hk, hin] at hother
    cases hother
  have hend := hne .endOfInput rfl
  refine ⟨?_, sim.advance h hend (hne _ rfl) (hne _ rfl) fun he => absurd he (hne _ rfl)⟩
  rw [value_advance, value_advance]
  exact sim.token h hend

/-- The kind of the next token is the same in both runs, so they take the same branch. -/
theorem agree_kind_bind {W : β → β' → Prop} {R' : State → State → Prop} {f : Kind → Parse β}
    {g : Kind → Parse β'} (h : Rel k s s') (hf : Agree W R' (f s.kind) (g s.kind) s s') :
    Agree W R' (Parse.kind >>= f) (Parse.kind >>= g) s s' := by
  show Agree W R' (f s.kind) (g s'.kind) s s'
  rw [← sim.kind h]
  exact hf

/-- The same for parsers that may fail. -/
theorem agreeOrFail_kind_bind {W : β → β' → Prop} {R' : State → State → Prop}
    {f : Kind → Attempt β} {g : Kind → Attempt β'} (h : Rel k s s')
    (hf : AgreeOrFail r W R' (f s.kind) (g s.kind) s s') :
    AgreeOrFail r W R' (liftM Parse.kind >>= f) (liftM Parse.kind >>= g) s s' := by
  show AgreeOrFail r W R' (f s.kind) (g s'.kind) s s'
  rw [← sim.kind h]
  exact hf

/-- An unexpected token is described alike in both runs. -/
theorem unexpected (h : Rel k s s') (expectation : String) :
    s.unexpected expectation = r.diagnostic (s'.unexpected expectation) := by
  have hkind : s.token.kind = s'.token.kind := sim.kind h
  have htext := sim.text h
  have hplace := sim.place h
  unfold State.kind at htext
  unfold State.unexpected
  generalize s.token = t at *
  generalize s'.token = t' at *
  rcases t with ⟨kind, value, span⟩
  rcases t' with ⟨kind', value', span'⟩
  simp only at hkind htext hplace
  subst hkind hplace
  -- The end of the input has no text that could be recast.
  by_cases hend : kind = .endOfInput
  · subst hend
    simp [Recast.diagnostic, Recast.cause, sim.span]
  · rw [htext hend]
    cases kind <;> first | contradiction | simp [Recast.diagnostic, Recast.cause, sim.span]

/-- Both runs keep their diagnostic. -/
theorem agree_report (h : Rel k s s') {d d' : Diagnostic} (hd : d = r.diagnostic d') :
    Agree (fun _ _ => True) (Rel k) (Parse.report d) (Parse.report d') s s' := by
  subst hd
  exact ⟨trivial, sim.report d' h⟩

/-- Both runs report the same token. -/
theorem agree_reportUnexpected (h : Rel k s s') (expectation : String) :
    Agree (fun _ _ => True) (Rel k) (reportUnexpected expectation)
      (reportUnexpected expectation) s s' :=
  sim.agree_report h (sim.unexpected h expectation)

/-- Both runs fail at the same token. -/
theorem agreeOrFail_failUnexpected {V : α → β → Prop} (h : Rel k s s') (expectation : String) :
    AgreeOrFail r V (Rel k) (failUnexpected expectation) (failUnexpected expectation) s s' :=
  AgreeOrFail.throw (sim.unexpected h expectation) h

/-- Both runs find the token that is expected, or neither does. -/
theorem agreeOrFail_expect (h : Rel k s s') {kind : Kind} (hin : inStatement kind = true)
    (expectation : String) :
    AgreeOrFail r (fun t t' => t = r.token t') (Rel k) (expect kind expectation)
      (expect kind expectation) s s' := by
  unfold expect
  refine sim.agreeOrFail_kind_bind h ?_
  split
  · next hk =>
    rcases sim.agree_advance h hk hin with ⟨hv, hs⟩
    exact ⟨.ok hv, hs⟩
  · exact sim.agreeOrFail_failUnexpected h expectation

/-- A span that starts at the same place ends at the same place. -/
theorem agree_spanFrom (h : Rel k s s') {start start' : Span} (hstart : start = start') :
    Agree (fun x x' => x = x') (Rel k) (spanFrom start) (spanFrom start') s s' := by
  refine ⟨?_, h⟩
  simp [State.spanFrom, sim.lastEnd h, hstart]

/-- Both runs pass over the same tokens. -/
theorem agree_skipUntil (h : Rel k s s') (stops : List Kind) :
    Agree (fun _ _ => True) (Rel k) (skipUntil stops) (skipUntil stops) s s' :=
  ⟨trivial, sim.dropUntil stops h⟩

/-- What was passed over since the states `s` and `s'` has the same span in both runs. -/
theorem passedSpan {t t' : State} (h : Rel k s s') (ht : Rel k t t') :
    (if t.rest.length < s.rest.length then (⟨s.token.span.start, t.lastEnd⟩ : Span)
      else .point s.token.span.start) =
    if t'.rest.length < s'.rest.length then ⟨s'.token.span.start, t'.lastEnd⟩
      else .point s'.token.span.start := by
  rw [sim.place h, sim.lastEnd ht]
  by_cases hlt : t.rest.length < s.rest.length
  · rw [if_pos hlt, if_pos ((sim.shorter h ht).1 hlt)]
  · rw [if_neg hlt, if_neg fun hlt' => hlt ((sim.shorter h ht).2 hlt')]

/-- What is nested too deep is passed over in both. -/
theorem agree_skipNested (h : Rel k s s') :
    Agree (fun x x' => x = x') (Rel k) skipNested skipNested s s' := by
  have hreport : Rel k (Parse.report ⟨.nestingTooDeep maxNesting, s.token.span⟩ s).next
      (Parse.report ⟨.nestingTooDeep maxNesting, s'.token.span⟩ s').next := by
    refine (sim.agree_report h ?_).2
    simp [Recast.diagnostic, Recast.cause, sim.span, sim.place h]
  have hdrop := sim.dropNested hreport
  exact ⟨sim.passedSpan hreport hdrop, hdrop⟩

/-- So is what is left of a statement that failed. -/
theorem agree_synchronize {t t' : State} (hloops : Loops k) (h : Rel k s s') (ht : Rel k t t')
    (hsuffix : t.rest <:+ s.rest) :
    Agree (fun x x' => x = x') (Rel k) (synchronize s) (synchronize s') t t' := by
  have hdrop := sim.dropStatement hloops h ht hsuffix
  exact ⟨sim.passedSpan h hdrop, hdrop⟩

end Simulation

end Sqf.Parse
