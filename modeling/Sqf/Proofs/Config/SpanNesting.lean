import Mathlib.Data.List.Basic
import Sqf.Proofs.Config.ClassEnd
import Sqf.Proofs.Config.Places
import Sqf.Proofs.Parse.SpanNesting

/-!
# Spans of classes and of their entries

The entries of a file stand one behind the other, and so do the entries of a class, in the span
of the class (`entries_nested`). What a parser reads between two states stands between their
next tokens. A class ends with its closing brace, which its entries stop at, or at the end of
input, and entries that cannot be read leave gaps.
-/

namespace Sqf

namespace Parse

/-- States behind a state `s`. -/
def Invariant.behind (s : State) : Invariant where
  state := s.Reaches
  span _ := True
  leaf _ := True
  reported _ := True
  token _ := trivial
  leafOf _ _ _ := trivial
  drop n h := h.trans (reaches_drop _ n)
  finish := by
    intro t hrest h
    rw [← next_advance_nil hrest]
    exact h.advance
  spanReported _ := trivial
  plain _ _ := trivial
  number _ _ _ := trivial
  report h _ := h.report _
  freshId h := h.freshId
  stall h := h.stall
  pointStart _ := trivial
  pointStop _ := trivial
  join _ _ := trivial
  spanFrom _ _ := trivial
  passed _ _ _ _ := trivial

/-- A parser whose states are behind the first one may be part of another such parser. -/
theorem upholds_behind {s t : State} {x : Attempt α} (h : s.Reaches (x.run t).next) :
    UpholdsOrFails (.behind s) x (fun _ => True) t := by
  refine ⟨h, ?_⟩
  cases (x.run t).value <;> exact trivial

end Parse

namespace Attempt

open Parse

variable {x : Attempt α} {f : α → Attempt β} {Q : β → State → Prop} {s : State}

/-- The second part starts at a state that is reached by the first one. -/
theorem Ensures.reaches_bind (h : s.Reaches (x.run s).next)
    (hf : ∀ a t, s.Reaches t → Ensures (f a) Q t) : Ensures (x >>= f) Q s :=
  Ensures.bind (P := fun _ t => s.Reaches t) (fun _ _ => h) hf

theorem Ensures.kind_bind {f : Kind → Attempt β} (h : Ensures (f s.kind) Q s) :
    Ensures (liftM Parse.kind >>= f) Q s := h

theorem Ensures.state_bind {f : State → Attempt β} (h : Ensures (f s) Q s) :
    Ensures (liftM Parse.state >>= f) Q s := h

theorem Ensures.advance_bind {f : Token → Attempt β}
    (h : Ensures (f s.token) Q (Parse.advance s).next) :
    Ensures (liftM Parse.advance >>= f) Q s := by
  rw [← value_advance] at h
  exact h

/-- A parser that fails ensures anything of its value. -/
theorem Ensures.failUnexpected (expectation : String) :
    Ensures (Parse.failUnexpected expectation) Q s := by
  intro b hb
  cases hb

end Attempt

namespace Config

open Parse (State Invariant kind state advance many reaches_advance upholds_behind)
open Attempt (Ensures)

variable {source : String} {s t : State}

/-! ## Where parsers stand -/

/-- A parser stands in a source: its tokens are one behind the other, and are what is left of the
source. -/
structure Sited (source : String) (s : State) : Prop where
  spaced : s.Spaced
  within : Within source.toList s
  finish : s.finish.Valid source
  lastEnd : (⟨s.lastEnd⟩ : String.Pos.Raw).IsValid source

namespace Sited

/-- The next token has a place in the source. -/
theorem token (h : Sited source s) : s.token.span.Valid source := by
  cases hrest : s.rest with
  | nil =>
    rw [State.token, hrest]
    exact h.finish
  | cons t ts =>
    rw [State.token_cons hrest]
    exact (Parse.laid_scan source).valid t (h.within.mem (by rw [hrest]; exact List.mem_cons_self))

/-- Tokens are not empty. -/
theorem token_lt (h : Sited source s) (hend : s.kind ≠ .endOfInput) :
    s.token.span.start < s.token.span.stop := by
  obtain ⟨ts, hts⟩ := State.exists_cons hend
  exact (start_lt_of_mem (h.within.mem (by rw [hts]; exact List.mem_cons_self))).1

/-- Reading on keeps all tokens in their places. -/
theorem mono (h : Sited source s) (hreaches : s.Reaches t) : Sited source t := by
  refine ⟨h.spaced.mono hreaches, hreaches.rest.trans h.within, hreaches.finish ▸ h.finish, ?_⟩
  induction hreaches with
  | refl => exact h.lastEnd
  | @advance t hreaches ih =>
    have ht : Sited source t := ⟨h.spaced.mono hreaches, hreaches.rest.trans h.within,
      hreaches.finish ▸ h.finish, ih⟩
    rw [Parse.next_advance_eq]
    exact ht.token.stop
  | report d _ ih => exact ih
  | freshId _ ih => exact ih
  | stall _ ih => exact ih

/-- So does reading one token. -/
theorem advance (h : Sited source s) : Sited source (Parse.advance s).next :=
  h.mono (reaches_advance s)

/-- A file starts like this. -/
theorem initial (source : String) : Sited source (.initial (scan source).tokens) := by
  have hspaced := Parse.spaced_initial source
  rw [Parse.initial_scan] at hspaced ⊢
  exact ⟨hspaced, List.suffix_refl _, valid_end source, String.Pos.Raw.isValid_zero⟩

/-- From the next token to the end of what is read behind it. -/
theorem valid_spanFrom (h : Sited source s) (hreaches : s.Reaches t) :
    (t.spanFrom s.token.span).Valid source := by
  have hstart := h.token
  refine .of_boundaries (Nat.le_trans hstart.le (Nat.le_max_right ..)) hstart.start ?_
  rcases max_choice t.lastEnd s.token.span.stop with hstop | hstop <;> rw [hstop]
  · exact (h.mono hreaches).lastEnd
  · exact hstart.stop

/-- From the next token to one behind it. -/
theorem join_eq (h : Sited source s) (hreaches : (Parse.advance s).next.Reaches t) :
    s.token.span.join t.token.span = ⟨s.token.span.start, t.token.span.stop⟩ := by
  have hread := (reaches_advance s).trans hreaches
  have hstart := h.spaced.le hread
  have hstop := Nat.le_trans (h.spaced.stop_le_of_advance hreaches) (h.mono hread).spaced.read
  rw [Span.join, Nat.min_eq_left hstart,
    Nat.max_eq_right (Nat.le_trans hstop (h.mono hread).spaced.token_le)]

/-- A token that is read ends before what is left. -/
theorem token_stop_le (h : Sited source s) (hreaches : (Parse.advance s).next.Reaches t) :
    s.token.span.stop ≤ t.token.span.start :=
  Nat.le_trans (h.spaced.stop_le_of_advance hreaches)
    (h.mono ((reaches_advance s).trans hreaches)).spaced.read

end Sited

/-! ## Entries in the order of the source -/

/-- Entries stand one behind the other between two offsets, in spans that are valid in the source
and not empty, and those of a class stand so between the ends of its span. -/
inductive InOrder (source : String) : Nat → Nat → List Entry → Prop where
  | nil {a b : Nat} (le : a ≤ b) : InOrder source a b []
  | cons {a b : Nat} {e : Entry} {es : List Entry} (le : a ≤ e.span.start)
      (lt : e.span.start < e.span.stop) (valid : e.span.Valid source)
      (inside : ∀ c ∈ e.class?, InOrder source c.span.start c.span.stop c.entries)
      (rest : InOrder source e.span.stop b es) : InOrder source a b (e :: es)

namespace InOrder

variable {a b c d : Nat} {e : Entry} {es fs : List Entry}

/-- Entries between two places are between places further out. -/
theorem widen (h : InOrder source b c es) (hle : a ≤ b) (hle' : c ≤ d) :
    InOrder source a d es := by
  induction h generalizing a with
  | nil le => exact .nil (Nat.le_trans hle (Nat.le_trans le hle'))
  | cons le lt valid inside _ _ ih =>
    exact .cons (Nat.le_trans hle le) lt valid inside (ih (Nat.le_refl _) hle')

/-- The first place is not behind the second. -/
theorem le (h : InOrder source a b es) : a ≤ b := by
  induction h with
  | nil le => exact le
  | cons le lt _ _ _ _ ih => exact Nat.le_trans le (Nat.le_trans lt.le ih)

/-- Entries may be followed by others. -/
theorem append (h : InOrder source a b es) (h' : InOrder source b c fs) :
    InOrder source a c (es ++ fs) := by
  induction h with
  | nil le => exact h'.widen le (Nat.le_refl _)
  | cons le lt valid inside _ _ ih => exact .cons le lt valid inside (ih h')

/-- A property has a span that is not empty, between the two places. -/
theorem property {p : Property} (le : a ≤ p.span.start) (lt : p.span.start < p.span.stop)
    (valid : p.span.Valid source) (le' : p.span.stop ≤ b) : InOrder source a b [.property p] :=
  .cons le lt valid nofun (.nil le')

/-- So has a class, and its entries are in it. -/
theorem nested {c : Class} (le : a ≤ c.span.start) (lt : c.span.start < c.span.stop)
    (valid : c.span.Valid source) (inside : InOrder source c.span.start c.span.stop c.entries)
    (le' : c.span.stop ≤ b) : InOrder source a b [.nested c] := by
  refine .cons le lt valid ?_ (.nil le')
  rintro _ ⟨⟩
  exact inside

/-- All of the entries are between the two places. -/
theorem bounds (h : InOrder source a b es) :
    ∀ e ∈ es, a ≤ e.span.start ∧ e.span.stop ≤ b := by
  induction h with
  | nil _ => exact nofun
  | cons le lt _ _ rest _ ih =>
    refine List.forall_mem_cons.2 ⟨⟨le, rest.le⟩, fun e he => ?_⟩
    obtain ⟨hstart, hstop⟩ := ih e he
    exact ⟨Nat.le_trans le (Nat.le_trans lt.le hstart), hstop⟩

/-- All of them have spans that are not empty, in the source. -/
theorem valid (h : InOrder source a b es) :
    ∀ e ∈ es, e.span.start < e.span.stop ∧ e.span.Valid source := by
  induction h with
  | nil _ => exact nofun
  | cons _ lt valid _ _ _ ih => exact List.forall_mem_cons.2 ⟨⟨lt, valid⟩, ih⟩

/-- They stand one behind the other. -/
theorem apart (h : InOrder source a b es) :
    es.Pairwise fun e f => e.span.stop ≤ f.span.start := by
  induction h with
  | nil _ => exact .nil
  | cons _ _ _ _ rest _ ih => exact List.pairwise_cons.2 ⟨fun f hf => (rest.bounds f hf).1, ih⟩

/-- The entries of a class are in its span. -/
theorem inside (h : InOrder source a b es) {c : Class} (hc : .nested c ∈ es) :
    InOrder source c.span.start c.span.stop c.entries := by
  induction h with
  | nil _ => cases hc
  | cons _ _ _ inside _ _ ih =>
    rcases List.mem_cons.1 hc with rfl | hc
    · exact inside c rfl
    · exact ih hc

end InOrder

/-! ## Values and names -/

/-- Brackets lead on in the file. -/
theorem reaches_brackets (s : State) : s.Reaches (brackets.run s).next :=
  (brackets_upholds (I := .behind s) .refl).1

/-- So does the sign behind them. -/
theorem reaches_assignment (isArray : Bool) (s : State) :
    s.Reaches ((assignment isArray).run s).next :=
  (assignment_upholds (I := .behind s) .refl isArray).1

/-- So does a name. -/
theorem reaches_name (expectation : String) (s : State) :
    s.Reaches ((name expectation).run s).next :=
  (name_upholds (I := .behind s) .refl expectation).1

/-- So does a parent. -/
theorem reaches_parent (s : State) : s.Reaches (parent.run s).next :=
  (parent_upholds (I := .behind s) .refl).1

/-- So does a semicolon, also a missing one. -/
theorem reaches_terminator (stop : Nat) (s : State) : s.Reaches (terminator stop s).next :=
  (terminator_upholds (I := .behind s) .refl trivial).1

/-- So does a value. -/
theorem reaches_value (cs : List Char) (n : Nat) (s : State) :
    s.Reaches ((valueWith cs (array cs n)).run s).next :=
  (valueWith_upholds (I := .behind s) (array_upholds cs n) s .refl).1

/-- So does the body of a class. -/
theorem reaches_body (cs : List Char) (n : Nat) (s : State) :
    s.Reaches ((body cs n).run s).next :=
  (body_upholds (I := .behind s) cs n s .refl).1

/-! ## Properties and classes -/

section Entries

variable {body : Attempt (List Entry)} {value : Attempt Value}

/-- A property stands between the tokens at which it starts and stops. -/
theorem property_inOrder (hvalue : ∀ s : State, s.Reaches (value.run s).next)
    (hs : Sited source s) (hend : s.kind ≠ .endOfInput) :
    Ensures (property value)
      (fun p t => InOrder source s.token.span.start t.token.span.start [.property p]) s := by
  refine Ensures.advance_bind ?_
  refine Ensures.reaches_bind (reaches_brackets _) fun isArray t ht => ?_
  refine Ensures.reaches_bind (reaches_assignment isArray t) fun appends u hu => ?_
  refine Ensures.kind_bind ?_
  split
  · exact Ensures.failUnexpected _
  refine Ensures.reaches_bind (hvalue u) fun v w hw => ?_
  have hname := (ht.trans hu).trans hw
  have hread := (reaches_advance s).trans hname
  refine Ensures.lift_bind (Ensures.lift_bind (Ensures.pure ?_))
  have hlt := Nat.lt_of_lt_of_le (hs.token_lt hend) (Nat.le_max_right w.lastEnd _)
  refine .property (Nat.le_refl _) hlt (hs.valid_spanFrom hread) ?_
  have hspaced := (hs.mono hread).spaced
  rw [Parse.value_spanFrom, Parse.stop_spanFrom (hs.spaced.stop_le_of_advance hname)]
  exact Nat.le_trans hspaced.read (hspaced.le (reaches_terminator _ w))

/-- Entries behind an opening brace are in order, up to the brace that closes it or to the end of
input. -/
def Encloses (source : String) (body : Attempt (List Entry)) : Prop :=
  ∀ s, Sited source s → Ensures body (fun es t => s.Reaches t ∧
    InOrder source s.token.span.start t.token.span.start es ∧
      (t.kind = .endOfInput ∨ t.kind = .closeCurly)) s

/-- A class ends with its closing brace or at the end of input, and what is left starts there at
the earliest. -/
theorem closing_spec (hs : Sited source s) (hkind : s.kind = .endOfInput ∨ s.kind = .closeCurly) :
    (closing s).value = s.token.span ∧
      s.token.span.stop ≤ (closing s).next.token.span.start := by
  have hclosing : closing s = (if s.kind = .closeCurly then do
      let brace ← advance
      terminator brace.span.stop
      return brace.span
    else do
      Parse.reportUnexpected "`\x7d`"
      return s.token.span : Parse Span) s := rfl
  rw [hclosing]
  rcases hkind with hend | hclose
  · rw [if_neg (by rw [hend]; decide)]
    refine ⟨rfl, ?_⟩
    show s.token.span.stop ≤ s.token.span.start
    rw [State.token, hs.within.rest_eq_nil hend]
    exact hs.spaced.finish
  · rw [if_pos hclose]
    exact ⟨congrArg Token.span (Parse.value_advance s),
      hs.token_stop_le (reaches_terminator _ _)⟩

/-- A class is in order that reaches from its first token to one behind which nothing of it is
left, if its entries stand between these. -/
theorem nested_inOrder {c : Class} {stop : Nat} (hs : Sited source s)
    (hend : s.kind ≠ .endOfInput) (hreaches : (advance s).next.Reaches t)
    (hspan : c.span = s.token.span.join t.token.span)
    (hinside : InOrder source s.token.span.start t.token.span.stop c.entries)
    (hleft : t.token.span.stop ≤ stop) :
    InOrder source s.token.span.start stop [.nested c] := by
  have ht := hs.mono ((reaches_advance s).trans hreaches)
  have hvalid : c.span.Valid source := hspan ▸ hs.token.join ht.token
  have hfirst := Nat.lt_of_lt_of_le (hs.token_lt hend) (hs.token_stop_le hreaches)
  rw [hs.join_eq hreaches] at hspan
  refine .nested ?_ ?_ hvalid ?_ ?_
  · rw [hspan]
  · rw [hspan]
    exact Nat.lt_of_lt_of_le hfirst ht.spaced.token_le
  · rw [hspan]
    exact hinside
  · rw [hspan]
    exact hleft

/-- So does a class, with its entries inside. -/
theorem classWith_inOrder (hbody : Encloses source body) (hs : Sited source s)
    (hend : s.kind ≠ .endOfInput) :
    Ensures (classWith body)
      (fun c t => InOrder source s.token.span.start t.token.span.start [.nested c]) s := by
  refine Ensures.advance_bind ?_
  refine Ensures.reaches_bind (reaches_name _ _) fun name t ht => ?_
  refine Ensures.reaches_bind (reaches_parent t) fun base u hu => ?_
  have hbehind := ht.trans hu
  have hu' := hs.advance.mono hbehind
  have hstart := hs.spaced.le ((reaches_advance s).trans hbehind)
  refine Ensures.kind_bind ?_
  -- A class is declared only, or has a body, or its head is malformed.
  split
  · refine Ensures.advance_bind (Ensures.pure ?_)
    exact nested_inOrder hs hend hbehind rfl (.nil (Nat.le_trans hstart hu'.spaced.token_le))
      (hu'.token_stop_le .refl)
  · refine Ensures.bind (hbody u hu') fun es v hes => ?_
    obtain ⟨hv, hinside, hkind⟩ := hes
    have hv' := hu'.mono hv
    obtain ⟨hclose, hleft⟩ := closing_spec hv' hkind
    refine Ensures.lift_bind (Ensures.pure ?_)
    rw [hclose]
    exact nested_inOrder hs hend (hbehind.trans hv) rfl
      (hinside.widen hstart hv'.spaced.token_le) hleft
  · exact Ensures.failUnexpected _

/-! ## Entries one after the other -/

/-- Any entry does. -/
theorem entry_inOrder (hbody : Encloses source body)
    (hvalue : ∀ s : State, s.Reaches (value.run s).next) (hs : Sited source s)
    (hend : s.kind ≠ .endOfInput) :
    Ensures (entry body value)
      (fun e t => InOrder source s.token.span.start t.token.span.start [e]) s := by
  refine Ensures.state_bind ?_
  dsimp only
  split
  · exact Ensures.failUnexpected _
  split
  · exact (classWith_inOrder hbody hs hend).bind fun c t hc => Ensures.pure hc
  · exact (property_inOrder hvalue hs hend).bind fun p t hp => Ensures.pure hp

/-- The entries of a class stop at its closing brace, or at the end of input. -/
theorem entriesWith_end (body : Attempt (List Entry)) (value : Attempt Value) (s : State) :
    (entriesWith body value s).next.kind = .endOfInput ∨
      (entriesWith body value s).next.kind = .closeCurly := by
  show (many (turn body value) s).next.kind = _ ∨ (many (turn body value) s).next.kind = _
  generalize hlength : s.rest.length = length
  -- Each turn but the last one reads something, so the induction is on what is left.
  induction length using Nat.strong_induction_on generalizing s with
  | _ length ih =>
    subst hlength
    have hturned := turned_turn body value s
    cases hfound : (turn body value s).value with
    | none =>
      rw [hfound] at hturned
      rw [(Parse.many_of_none hfound).2]
      generalize (turn body value s).next = t at hturned ⊢
      cases hturned with
      | last hkind => exact hkind
    | some found =>
      rw [hfound] at hturned
      rw [(Parse.many_of_some hfound hturned.shortens).2]
      exact ih _ hturned.shortens _ rfl

/-- Turns one after the other give entries in order if each turn does. -/
theorem many_inOrder {step : Parse (Option α)} {entries : α → List Entry}
    (hreaches : ∀ s : State, s.Reaches (step s).next)
    (hstep : ∀ s a, Sited source s → (step s).value = some a →
      InOrder source s.token.span.start (step s).next.token.span.start (entries a))
    (hs : Sited source s) :
    InOrder source s.token.span.start (many step s).next.token.span.start
      ((many step s).value.flatMap entries) := by
  generalize hlength : s.rest.length = length
  induction length using Nat.strong_induction_on generalizing s with
  | _ length ih =>
    subst hlength
    -- The loop may end with this step, go on behind it, or stop as nothing was read.
    cases hfound : (step s).value with
    | none =>
      obtain ⟨hnone, hnext⟩ := Parse.many_of_none hfound
      rw [hnone, hnext]
      exact .nil (hs.spaced.le (hreaches s))
    | some a =>
      have hfirst := hstep s a hs hfound
      by_cases hlt : (step s).next.rest.length < s.rest.length
      · obtain ⟨hsome, hnext⟩ := Parse.many_of_some hfound hlt
        rw [hsome, hnext, List.flatMap_cons]
        exact hfirst.append (ih _ hlt (hs.mono (hreaches s)) rfl)
      · obtain ⟨hstuck, hnext⟩ := Parse.many_of_stuck hfound hlt
        rw [hstuck, hnext, List.flatMap_singleton]
        exact hfirst

/-- A turn leads on in the file. -/
theorem reaches_turn (hbody : ∀ s : State, s.Reaches (body.run s).next)
    (hvalue : ∀ s : State, s.Reaches (value.run s).next) (s : State) :
    s.Reaches (turn body value s).next :=
  (turn_upholds (I := .behind s) (fun t ht => upholds_behind (ht.trans (hbody t)))
    (fun t ht => upholds_behind (ht.trans (hvalue t))) s .refl).1

/-- A turn gives an entry that stands in what the turn reads. -/
theorem turn_inOrder (hbody : ∀ s : State, s.Reaches (body.run s).next)
    (hvalue : ∀ s : State, s.Reaches (value.run s).next) (hencloses : Encloses source body)
    (hs : Sited source s) {found : Option Entry} (h : (turn body value s).value = some found) :
    InOrder source s.token.span.start (turn body value s).next.token.span.start found.toList := by
  have hle := hs.spaced.le (reaches_turn hbody hvalue s)
  have hturned := turned_turn body value s
  rw [h] at hturned
  generalize (turn body value s).next = t at hle hturned ⊢
  cases hturned with
  | stray _ => exact .nil hle
  | read hend he => exact entry_inOrder hencloses hvalue hs hend _ he
  | dropped _ _ _ => exact .nil hle

/-- The entries that are read turn by turn stand one behind the other. -/
theorem entriesWith_inOrder (hbody : ∀ s : State, s.Reaches (body.run s).next)
    (hvalue : ∀ s : State, s.Reaches (value.run s).next) (hencloses : Encloses source body)
    (hs : Sited source s) :
    InOrder source s.token.span.start (entriesWith body value s).next.token.span.start
      (entriesWith body value s).value := by
  have hvalues : (entriesWith body value s).value =
      (many (turn body value) s).value.flatMap Option.toList :=
    List.filterMap_eq_flatMap_toList id _
  rw [hvalues]
  exact many_inOrder (reaches_turn hbody hvalue)
    (fun _ _ ht hfound => turn_inOrder hbody hvalue hencloses ht hfound) hs

end Entries

/-! ## Files -/

/-- The body of a class stops at its closing brace, with its entries in front of it. -/
theorem body_encloses (source : String) (n : Nat) : Encloses source (body source.toList n) := by
  induction n with
  | zero =>
    intro s _ es hes
    cases hes
  | succ n ih =>
    intro s hs es hes
    cases hes
    have hreaches := reaches_body source.toList (n + 1) s
    have hinside := entriesWith_inOrder (reaches_body source.toList n)
      (reaches_value source.toList n) ih hs.advance
    refine ⟨hreaches, hinside.widen (hs.spaced.le (reaches_advance s)) (Nat.le_refl _), ?_⟩
    exact entriesWith_end _ _ _

/-- The entries up to a stray brace. -/
theorem topEntries_inOrder (hs : Sited source s) :
    InOrder source s.token.span.start (topEntries source.toList s).next.token.span.start
      (topEntries source.toList s).value :=
  entriesWith_inOrder (reaches_body source.toList _) (reaches_value source.toList _)
    (body_encloses source _) hs

/-- They lead on in the file. -/
theorem reaches_topEntries (cs : List Char) (s : State) : s.Reaches (topEntries cs s).next :=
  (topEntries_upholds (I := .behind s) cs .refl).1

/-- So do a stray brace and the entries behind it. -/
theorem reaches_strayTurn (cs : List Char) (s : State) : s.Reaches (strayTurn cs s).next :=
  (strayTurn_upholds (I := .behind s) cs s .refl).1

/-- The entries behind a stray brace are in order. -/
theorem strayTurn_inOrder (hs : Sited source s) {es : List Entry}
    (h : (strayTurn source.toList s).value = some es) :
    InOrder source s.token.span.start (strayTurn source.toList s).next.token.span.start es := by
  have hrun : strayTurn source.toList s = (if s.kind = .endOfInput then return none else do
      Parse.reportUnexpected "`class` or a property"
      let _ ← advance
      let entries ← topEntries source.toList
      return some entries : Parse (Option (List Entry))) s := rfl
  rw [hrun] at h ⊢
  by_cases hend : s.kind = .endOfInput
  · rw [if_pos hend] at h
    cases h
  · rw [if_neg hend] at h ⊢
    cases h
    have hbrace := (Parse.reaches_report (s.unexpected "`class` or a property") s).advance
    exact (topEntries_inOrder (hs.mono hbrace)).widen (hs.spaced.le hbrace) (Nat.le_refl _)

/-- All entries of a file, also those behind stray braces. -/
theorem allEntries_inOrder (hs : Sited source s) :
    InOrder source s.token.span.start (allEntries source.toList s).next.token.span.start
      (allEntries source.toList s).value := by
  have htop := reaches_topEntries source.toList s
  have hstray := many_inOrder (reaches_strayTurn source.toList)
    (fun _ _ ht => strayTurn_inOrder ht) (hs.mono htop)
  rw [List.flatMap_id'] at hstray
  exact (topEntries_inOrder hs).append hstray

/-- The entries of a file, and those of a class that is one of them or is inside of one. -/
inductive Siblings (file : List Entry) : List Entry → Prop where
  | file : Siblings file file
  | inside {es : List Entry} {c : Class} (h : Siblings file es) (hc : .nested c ∈ es) :
      Siblings file c.entries

/-- Entries stand one behind the other, in valid spans that are not empty, and those of a class in
its span. -/
theorem entries_nested (source : String) :
    ∀ es, Siblings (parse source).entries es →
      (es.Pairwise fun e f => e.span.stop ≤ f.span.start) ∧
      (∀ e ∈ es, e.span.start < e.span.stop ∧ e.span.Valid source) ∧
      ∀ c, .nested c ∈ es → ∀ e ∈ c.entries, c.span.Contains e.span := by
  intro es hes
  have hplaced : ∃ a b, InOrder source a b es := by
    induction hes with
    | file => exact ⟨_, _, allEntries_inOrder (.initial source)⟩
    | inside _ hc ih =>
      obtain ⟨a, b, horder⟩ := ih
      exact ⟨_, _, horder.inside hc⟩
  obtain ⟨a, b, horder⟩ := hplaced
  exact ⟨horder.apart, horder.valid, fun c hc => (horder.inside hc).bounds⟩

/-- A class without its closing brace, and with an entry that cannot be read. -/
def unclosed : String := "class A \x7b class B; 3 = 4; x = 1"

theorem entries_nested_unclosed :
    ∃ c, .nested c ∈ (parse unclosed).entries ∧ c.span = ⟨0, 31⟩ ∧
      c.entries.map Entry.span = [⟨10, 18⟩, ⟨26, 31⟩] ∧
      (∀ e ∈ c.entries, c.span.Contains e.span) ∧
      c.entries.Pairwise fun e f => e.span.stop ≤ f.span.start := by
  have hfound : ∃ c ∈ classesOf (parse unclosed).entries, c.span = ⟨0, 31⟩ ∧
      c.entries.map Entry.span = [⟨10, 18⟩, ⟨26, 31⟩] := by
    decide +kernel
  obtain ⟨c, hc, hspan, hspans⟩ := hfound
  obtain ⟨e, he, hclass⟩ := List.mem_filterMap.1 hc
  cases e with
  | property p => cases hclass
  | nested c' =>
    cases hclass
    have hfile : Siblings (parse unclosed).entries (parse unclosed).entries := .file
    exact ⟨c, he, hspan, hspans, (entries_nested unclosed _ hfile).2.2 c he,
      (entries_nested unclosed _ (hfile.inside he)).1⟩

end Config

end Sqf
