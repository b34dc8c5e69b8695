import Sqf.Config.Parse
import Sqf.Proofs.Parse.Steps
import Sqf.Proofs.Token.Stretch

/-!
# Parsers of config files on given tokens

A parser that stands before certain tokens of a source text gives a value, leaves
the tokens behind them and reports nothing: this is what `Yields` says of it, and
`Gives` of one that could fail. There is a rule for each way in which parsers are put
together, so that what a file yields follows from what its parts yield.
-/

namespace Sqf

namespace Config

open Parse (State state kind advance spanFrom expect)

/-! ## Entries without their places -/

mutual

/-- The entry with all spans empty. Two entries are the same up to spans if these are equal. -/
def Entry.unplaced : Entry → Entry
  | .property p => .property { p with span := {} }
  | .nested c => .nested c.unplaced

def Class.unplaced : Class → Class
  | ⟨name, parent, entries, isForward, _⟩ => ⟨name, parent, unplacedAll entries, isForward, {}⟩

def unplacedAll : List Entry → List Entry
  | [] => []
  | e :: es => e.unplaced :: unplacedAll es

end

/-- Spans are taken off entry by entry. -/
theorem unplacedAll_eq_map (es : List Entry) : unplacedAll es = es.map Entry.unplaced := by
  induction es with
  | nil => rfl
  | cons e es ih => rw [unplacedAll, ih, List.map_cons]

/-! ## States before tokens -/

/-- The kind of the first token. -/
def kindOf : List Lexeme → Kind
  | [] => .endOfInput
  | l :: _ => l.kind

/-- The tokens that are left are these, and they stand in the source. -/
structure Before (source : List Char) (ls : List Lexeme) (s : State) : Prop where
  lexemes : s.rest.map Token.lexeme = ls
  spelled : ∀ t ∈ s.rest, t.kind ≠ .string →
    Text.slice? t.span.start t.span.stop source = some t.value.toList

section Before

variable {source : List Char} {l : Lexeme} {ls : List Lexeme} {s : State}

/-- A state that stands before tokens has the first of them next. -/
theorem Before.exists_cons (h : Before source (l :: ls) s) :
    ∃ t ts, s.rest = t :: ts ∧ t.lexeme = l ∧ ts.map Token.lexeme = ls :=
  List.map_eq_cons_iff.1 h.lexemes

/-- What comes next is seen from the lexemes. -/
theorem Before.kind (h : Before source ls s) : s.kind = kindOf ls := by
  cases ls with
  | nil => exact State.kind_nil (List.map_eq_nil_iff.1 h.lexemes)
  | cons l ls =>
    obtain ⟨t, ts, hrest, rfl, _⟩ := h.exists_cons
    exact State.kind_cons hrest

/-- So is the next token itself. -/
theorem Before.token (h : Before source (l :: ls) s) : s.token.lexeme = l := by
  obtain ⟨t, ts, hrest, hl, _⟩ := h.exists_cons
  rwa [State.token_cons hrest]

/-- And how many are left. -/
theorem Before.length (h : Before source ls s) : s.rest.length = ls.length := by
  rw [← h.lexemes, List.length_map]

end Before

/-! ## Rules -/

/-- Before the tokens `ls` the parser gives a value with the property `P`. It leaves the tokens
`rest`, and reports nothing. -/
def Yields (source : List Char) (p : Parse α) (ls rest : List Lexeme) (P : α → Prop) : Prop :=
  ∀ s, Before source ls s →
    P (p s).value ∧ Before source rest (p s).next ∧ (p s).next.diagnostics = s.diagnostics

/-- The same of a parser that could fail: it does not. -/
def Gives (source : List Char) (x : Attempt α) (ls rest : List Lexeme) (P : α → Prop) : Prop :=
  Yields source x.run ls rest fun r => ∃ a, r = .ok a ∧ P a

section Rules

variable {source : List Char} {l : Lexeme} {ls middle rest : List Lexeme} {P : α → Prop}
  {Q : β → Prop}

/-- Less may be said of the value. -/
theorem Yields.mono {P' : α → Prop} {p : Parse α} (h : Yields source p ls rest P)
    (hP : ∀ a, P a → P' a) : Yields source p ls rest P' := by
  intro s hs
  obtain ⟨hvalue, hnext⟩ := h s hs
  exact ⟨hP _ hvalue, hnext⟩

/-- A value that is given takes no tokens. -/
theorem Yields.pure {a : α} (h : P a) : Yields source (Pure.pure a) ls ls P :=
  fun _ hs => ⟨h, hs, rfl⟩

/-- Two parsers take the tokens in front one after the other. -/
theorem Yields.bind {p : Parse α} {k : α → Parse β} (h : Yields source p ls middle P)
    (hk : ∀ a, P a → Yields source (k a) middle rest Q) : Yields source (p >>= k) ls rest Q := by
  intro s hs
  obtain ⟨hvalue, hbefore, hreports⟩ := h s hs
  obtain ⟨hvalue', hbefore', hreports'⟩ := hk _ hvalue _ hbefore
  exact ⟨hvalue', hbefore', hreports'.trans hreports⟩

/-- A parser that looks at its state sees one that stands before the tokens. -/
theorem Yields.state_bind {k : State → Parse β}
    (h : ∀ s, Before source ls s → Yields source (k s) ls rest Q) :
    Yields source (state >>= k) ls rest Q :=
  fun s hs => h s hs s hs

/-- The kind of the next token is that of the first one. -/
theorem Yields.kind_bind {k : Kind → Parse β} (h : Yields source (k (kindOf ls)) ls rest Q) :
    Yields source (kind >>= k) ls rest Q := by
  intro s hs
  rw [← hs.kind] at h
  exact h s hs

/-- A parser that could fail does not, before tokens that it knows. -/
theorem Yields.run_bind {x : Attempt α} {k : Except Diagnostic α → Parse β}
    (h : Gives source x ls middle P)
    (hk : ∀ a, P a → Yields source (k (.ok a)) middle rest Q) :
    Yields source (x.run >>= k) ls rest Q := by
  refine Yields.bind h ?_
  rintro r ⟨a, rfl, ha⟩
  exact hk a ha

/-- The first token is read. -/
theorem Yields.advance : Yields source Parse.advance (l :: ls) ls fun t => t.lexeme = l := by
  intro s hs
  obtain ⟨t, ts, hrest, _, hts⟩ := hs.exists_cons
  have hspelled : ∀ u ∈ ts, u.kind ≠ .string →
      Text.slice? u.span.start u.span.stop source = some u.value.toList :=
    fun u hu => hs.spelled u (by rw [hrest]; exact List.mem_cons_of_mem _ hu)
  rw [Parse.value_advance, Parse.next_advance hrest]
  exact ⟨hs.token, ⟨hts, hspelled⟩, rfl⟩

/-- A value that is given takes no tokens. -/
theorem Gives.pure {a : α} (h : P a) : Gives source (Pure.pure a) ls ls P :=
  fun _ hs => ⟨⟨a, rfl, h⟩, hs, rfl⟩

/-- Two parsers that could fail take their tokens one after the other. -/
theorem Gives.bind {x : Attempt α} {k : α → Attempt β} (h : Gives source x ls middle P)
    (hk : ∀ a, P a → Gives source (k a) middle rest Q) : Gives source (x >>= k) ls rest Q := by
  intro s hs
  obtain ⟨⟨a, hvalue, ha⟩, hbefore, hreports⟩ := h s hs
  obtain ⟨hvalue', hbefore', hreports'⟩ := hk a ha _ hbefore
  obtain ⟨hok, hnext⟩ := Attempt.bind_ok (f := k) hvalue
  rw [hok, hnext]
  exact ⟨hvalue', hbefore', hreports'.trans hreports⟩

/-- A parser that cannot fail gives what it yields. -/
theorem Gives.lift {p : Parse α} (h : Yields source p ls rest P) :
    Gives source (liftM p) ls rest P := by
  intro s hs
  obtain ⟨hvalue, hnext⟩ := h s hs
  exact ⟨⟨_, rfl, hvalue⟩, hnext⟩

theorem Gives.lift_bind {p : Parse α} {k : α → Attempt β} (h : Yields source p ls middle P)
    (hk : ∀ a, P a → Gives source (k a) middle rest Q) :
    Gives source (liftM p >>= k) ls rest Q :=
  (Gives.lift h).bind hk

theorem Gives.state_bind {k : State → Attempt β}
    (h : ∀ s, Before source ls s → Gives source (k s) ls rest Q) :
    Gives source (liftM state >>= k) ls rest Q :=
  fun s hs => h s hs s hs

/-- Which branch is taken is seen from the first lexeme. -/
theorem Gives.kind_bind {k : Kind → Attempt β} (h : Gives source (k (kindOf ls)) ls rest Q) :
    Gives source (liftM kind >>= k) ls rest Q :=
  Yields.kind_bind h

/-- Spans do not matter. -/
theorem Gives.spanFrom_bind {k : Span → Attempt β} {start : Span}
    (h : ∀ span, Gives source (k span) ls rest Q) :
    Gives source (liftM (spanFrom start) >>= k) ls rest Q :=
  fun s hs => h _ s hs

/-- The token that is expected is there. -/
theorem Gives.expect (expectation : String) :
    Gives source (expect l.kind expectation) (l :: ls) ls fun t => t.lexeme = l := by
  refine Gives.kind_bind ?_
  rw [kindOf, if_pos rfl]
  exact Gives.lift Yields.advance

end Rules

end Config

end Sqf
