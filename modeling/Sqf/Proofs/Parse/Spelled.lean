import Sqf.Proofs.Parse.Steps
import Sqf.Proofs.Tree.Recast
import Sqf.Proofs.Tree.Written

/-!
# Parsers on tokens that spell words

A parser that stands before words yields what they mean, and stands before the
words behind them: this is what `Yields` says of it, and `Gives` of one that
could fail. Both also say that nothing is reported. A parser made of parts reads
words one part after the other.

Blocks are numbered in the order in which they open. A function from the new
numbers to those in the words is given beforehand, and `TakesBack` says that it
fits the words to come.
-/

namespace Sqf.Parse

/-! ## States before words -/

/-- If blocks are numbered from `next` on in the order of these words, then `f` takes their
numbers back to those in the words. -/
def TakesBack (f : Nat → Nat) (next : Nat) : List Word → Prop
  | [] => True
  | .opening id :: ws => f next = id ∧ TakesBack f (next + 1) ws
  | .mark _ :: ws | .text _ _ :: ws => TakesBack f next ws

/-- Only the numbers from the next one on matter. -/
theorem TakesBack.congr {f g : Nat → Nat} {next : Nat} {ws : List Word}
    (h : TakesBack f next ws) (heq : ∀ k, next ≤ k → g k = f k) : TakesBack g next ws := by
  induction ws generalizing next with
  | nil => trivial
  | cons w ws ih =>
    cases w with
    | mark kind => exact ih h heq
    | text kind value => exact ih h heq
    | opening id =>
      rcases h with ⟨hid, hothers⟩
      exact ⟨(heq next (Nat.le_refl _)).trans hid,
        ih hothers fun k hk => heq k (Nat.le_of_succ_le hk)⟩

/-- However the blocks are numbered in the words, some function takes their new numbers back. -/
theorem exists_takesBack (ws : List Word) (next : Nat) : ∃ f, TakesBack f next ws := by
  induction ws generalizing next with
  | nil => exact ⟨id, trivial⟩
  | cons w ws ih =>
    cases w with
    | mark kind => exact ih next
    | text kind value => exact ih next
    | opening id =>
      rcases ih (next + 1) with ⟨f, hf⟩
      refine ⟨fun k => if k = next then id else f k, if_pos rfl, hf.congr ?_⟩
      intro k hk
      exact if_neg (by omega)

/-- The tokens that are left spell these words, and `f` takes back the numbers of their blocks. -/
structure Stands (f : Nat → Nat) (ws : List Word) (s : State) : Prop where
  spelled : Spelled ws s.rest
  numbered : TakesBack f s.nextId ws

/-- The kind of the word `n` places further on. -/
def kindOf (ws : List Word) (n : Nat) : Kind :=
  match ws[n]? with
  | some w => w.kind
  | none => .endOfInput

/-- The kind of the first word. -/
def firstKind (ws : List Word) : Kind := kindOf ws 0

/-- A token that spells a word has its kind. -/
theorem kind_of_spells {w : Word} {t : Token} (h : w.Spells t) : t.kind = w.kind := by
  cases w with
  | mark kind => exact h
  | text kind value => exact h.1
  | opening id => exact h

section Stands

variable {f : Nat → Nat} {w : Word} {ws : List Word} {s : State}

/-- A state that stands before words has a token for the first of them. -/
theorem Stands.exists_cons (h : Stands f (w :: ws) s) :
    ∃ t ts, s.rest = t :: ts ∧ w.Spells t ∧ Spelled ws ts := by
  rcases List.forall₂_cons_left_iff.1 h.spelled with ⟨t, ts, hspells, hspelled, hrest⟩
  exact ⟨t, ts, hrest, hspells, hspelled⟩

/-- Behind the last word there is no token. -/
theorem Stands.rest_nil (h : Stands f [] s) : s.rest = [] :=
  List.forall₂_nil_left_iff.1 h.spelled

/-- The next token spells the first word. -/
theorem Stands.token (h : Stands f (w :: ws) s) : w.Spells s.token := by
  rcases h.exists_cons with ⟨t, ts, hrest, hspells, _⟩
  rwa [State.token_cons hrest]

/-- There are as many tokens as words. -/
theorem Stands.length (h : Stands f ws s) : s.rest.length = ws.length :=
  h.spelled.length_eq.symm

/-- What a parser looks at further on is seen from the words. -/
theorem Stands.kindAt (h : Stands f ws s) (n : Nat) : s.kindAt n = kindOf ws n := by
  have hspelled := h.spelled
  clear h
  unfold State.kindAt kindOf
  generalize s.rest = ts at hspelled
  induction hspelled generalizing n with
  | nil => rfl
  | cons hspells _ ih =>
    cases n with
    | zero => exact kind_of_spells hspells
    | succ n => exact ih n

/-- So is the kind of the next token. -/
theorem Stands.kind (h : Stands f ws s) : s.kind = firstKind ws := by
  cases ws with
  | nil => exact State.kind_nil h.rest_nil
  | cons w ws => exact kind_of_spells h.token

end Stands

/-- Words have no end of input among them, so the tokens that spell them are those to be read,
whether or not the end of input stands behind them. -/
theorem rest_initial {ws : List Word} {ts : List Token} (hts : Spelled ws ts) (hws : Inside ws)
    {finish : Option Token} (hfinish : ∀ t ∈ finish, t.kind = .endOfInput) :
    (State.initial (ts ++ finish.toList)).rest = ts := by
  apply State.rest_initial _ hfinish
  induction hts with
  | nil => exact fun _ h => by cases h
  | cons hspells _ ih =>
    rcases inside_cons.1 hws with ⟨hw, hws⟩
    intro t ht
    rcases List.mem_cons.1 ht with rfl | ht
    · rwa [kind_of_spells hspells]
    · exact ih hws t ht

/-! ## Parsers before words -/

/-- Before the words `ws` the parser yields a value with the property `P`. It leaves the words
`rest`, and reports nothing. -/
def Yields (f : Nat → Nat) (p : Parse α) (ws rest : List Word) (P : α → Prop) : Prop :=
  ∀ s, Stands f ws s →
    P (p s).value ∧ Stands f rest (p s).next ∧ (p s).next.diagnostics = s.diagnostics

/-- The same of a parser that could fail: it does not. -/
def Gives (f : Nat → Nat) (x : Attempt α) (ws rest : List Word) (P : α → Prop) : Prop :=
  Yields f x.run ws rest fun r => ∃ a, r = .ok a ∧ P a

section Rules

variable {f : Nat → Nat} {ws middle rest : List Word} {P : α → Prop} {Q : β → Prop}

/-- Less may be said of the value. -/
theorem Yields.mono {P' : α → Prop} {p : Parse α} (h : Yields f p ws rest P)
    (hP : ∀ a, P a → P' a) : Yields f p ws rest P' := by
  intro s hs
  rcases h s hs with ⟨hvalue, hnext⟩
  exact ⟨hP _ hvalue, hnext⟩

/-- A value that is given takes no words. -/
theorem Yields.pure {a : α} (h : P a) : Yields f (Pure.pure a) ws ws P :=
  fun _ hs => ⟨h, hs, rfl⟩

/-- Two parsers take the words in front one after the other. -/
theorem Yields.bind {p : Parse α} {k : α → Parse β} (h : Yields f p ws middle P)
    (hk : ∀ a, P a → Yields f (k a) middle rest Q) : Yields f (p >>= k) ws rest Q := by
  intro s hs
  rcases h s hs with ⟨hvalue, hstands, hreports⟩
  rcases hk _ hvalue _ hstands with ⟨hvalue', hstands', hreports'⟩
  exact ⟨hvalue', hstands', hreports'.trans hreports⟩

/-- A parser that looks at its state sees one that stands before the words. -/
theorem Yields.state_bind {k : State → Parse β}
    (h : ∀ s, Stands f ws s → Yields f (k s) ws rest Q) : Yields f (state >>= k) ws rest Q :=
  fun s hs => h s hs s hs

/-- The kind of the next token is that of the first word. -/
theorem Yields.kind_bind {k : Kind → Parse β} (first : Kind) (hfirst : firstKind ws = first)
    (h : Yields f (k first) ws rest Q) : Yields f (kind >>= k) ws rest Q := by
  intro s hs
  rw [← hfirst, ← hs.kind] at h
  exact h s hs

/-- Spans do not matter, since words have no places. -/
theorem Yields.spanFrom_bind {k : Span → Parse β} {start : Span}
    (h : ∀ span, Yields f (k span) ws rest Q) : Yields f (spanFrom start >>= k) ws rest Q :=
  fun s hs => h _ s hs

/-- A parser that could fail does not, before words that it knows. -/
theorem Yields.run_bind {x : Attempt α} {k : Except Diagnostic α → Parse β}
    (h : Gives f x ws middle P) (hk : ∀ a, P a → Yields f (k (.ok a)) middle rest Q) :
    Yields f (x.run >>= k) ws rest Q := by
  refine Yields.bind h ?_
  intro r hr
  rcases hr with ⟨a, rfl, ha⟩
  exact hk a ha

/-- Less may be said of the value. -/
theorem Gives.mono {P' : α → Prop} {x : Attempt α} (h : Gives f x ws rest P)
    (hP : ∀ a, P a → P' a) : Gives f x ws rest P' :=
  Yields.mono h fun _ ⟨a, hr, ha⟩ => ⟨a, hr, hP a ha⟩

/-- A value that is given takes no words. -/
theorem Gives.pure {a : α} (h : P a) : Gives f (Pure.pure a) ws ws P :=
  fun _ hs => ⟨⟨a, rfl, h⟩, hs, rfl⟩

/-- Two parsers that could fail take their words one after the other. -/
theorem Gives.bind {x : Attempt α} {k : α → Attempt β} (h : Gives f x ws middle P)
    (hk : ∀ a, P a → Gives f (k a) middle rest Q) : Gives f (x >>= k) ws rest Q := by
  intro s hs
  rcases h s hs with ⟨⟨a, hvalue, ha⟩, hstands, hreports⟩
  rcases hk a ha _ hstands with ⟨hvalue', hstands', hreports'⟩
  rcases Attempt.bind_ok (f := k) hvalue with ⟨hok, hnext⟩
  rw [hok, hnext]
  exact ⟨hvalue', hstands', hreports'.trans hreports⟩

/-- The same after a part that cannot fail. -/
theorem Gives.lift_bind {p : Parse α} {k : α → Attempt β} (h : Yields f p ws middle P)
    (hk : ∀ a, P a → Gives f (k a) middle rest Q) : Gives f (liftM p >>= k) ws rest Q := by
  intro s hs
  rcases h s hs with ⟨hvalue, hstands, hreports⟩
  rcases hk _ hvalue _ hstands with ⟨hvalue', hstands', hreports'⟩
  exact ⟨hvalue', hstands', hreports'.trans hreports⟩

/-- A parser that looks at its state sees one that stands before the words. -/
theorem Gives.state_bind {k : State → Attempt β}
    (h : ∀ s, Stands f ws s → Gives f (k s) ws rest Q) :
    Gives f (liftM state >>= k) ws rest Q :=
  fun s hs => h s hs s hs

/-- Which branch is taken is seen from the first word. -/
theorem Gives.kind_bind {k : Kind → Attempt β} (first : Kind) (hfirst : firstKind ws = first)
    (h : Gives f (k first) ws rest Q) : Gives f (liftM kind >>= k) ws rest Q :=
  Yields.kind_bind first hfirst h

/-- A keyword or symbol is read. -/
theorem yields_mark (kind : Kind) :
    Yields f advance (.mark kind :: ws) ws fun t => t.kind = kind := by
  intro s hs
  rcases hs.exists_cons with ⟨t, ts, hrest, hspells, hspelled⟩
  rw [value_advance, next_advance hrest]
  exact ⟨hs.token, ⟨hspelled, hs.numbered⟩, rfl⟩

/-- A word with a text of its own is read as a token with this text. -/
theorem yields_text (kind : Kind) (value : String) :
    Yields f advance (.text kind value :: ws) ws fun t => t.kind = kind ∧ t.value = value := by
  intro s hs
  rcases hs.exists_cons with ⟨t, ts, hrest, hspells, hspelled⟩
  rw [value_advance, next_advance hrest]
  exact ⟨hs.token, ⟨hspelled, hs.numbered⟩, rfl⟩

/-- A block is opened and takes the next number. -/
theorem yields_opening {id : Nat} {k : Token → Nat → Parse β}
    (h : ∀ t n, f n = id → Yields f (k t n) ws rest Q) :
    Yields f (do let t ← advance; let n ← freshId; k t n) (.opening id :: ws) rest Q := by
  intro s hs
  rcases hs.exists_cons with ⟨t, ts, hrest, hspells, hspelled⟩
  rcases hs.numbered with ⟨hid, hnumbered⟩
  -- The number that is taken is the one that was next before the brace.
  have hstands : Stands f ws (freshId (advance s).next).next := by
    rw [next_freshId, next_advance hrest]
    exact ⟨hspelled, hnumbered⟩
  have hnext : (advance s).next.nextId = s.nextId := by rw [next_advance hrest]
  rcases h (advance s).value _ (hnext ▸ hid) _ hstands with ⟨hvalue, hstands', hreports⟩
  refine ⟨hvalue, hstands', hreports.trans ?_⟩
  rw [next_freshId, next_advance hrest]

end Rules

end Sqf.Parse
