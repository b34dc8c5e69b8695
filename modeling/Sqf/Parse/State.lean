import Sqf.Diagnostic
import Sqf.Token

/-!
# Reading tokens

A parser runs over the tokens that are left. `Parse α` is the type of parsers
that always give a value, `Attempt α` that of parsers that may fail with a
diagnostic instead. Either keeps what it has read, the diagnostics it has
reported and the block numbers it has used.

What a parser leaves is an end piece of what it was given. This stands in the
type (`Step.suffix`), so it holds of every parser that can be written, and the
loops over tokens end because of it.
-/

namespace Sqf.Parse

/-- How deeply constructs may be nested, in scripts and in config files. -/
def maxNesting : Nat := 128

/-- Where a parser stands and what it has found so far. -/
structure State where
  /-- The tokens not yet read, without the end of input. -/
  rest : List Token
  /-- Where the end of input is. -/
  finish : Span
  /-- End of the last token read. -/
  lastEnd : Nat := 0
  /-- Number of the next code block. -/
  nextId : Nat := 1
  diagnostics : Array Diagnostic := #[]
  /-- Whether a loop was cut off at a turn that read nothing, and would have gone on for ever. -/
  stalled : Bool := false

/-- What a parser makes of a state: a value and a state with no more tokens. -/
structure Step (s : State) (α : Type) where
  value : α
  next : State
  suffix : next.rest <:+ s.rest

end Parse

/-- A parser that always gives a value. -/
def Parse (α : Type) : Type := (s : Parse.State) → Parse.Step s α

/-- A parser that gives a value or fails with a diagnostic. -/
abbrev Attempt (α : Type) : Type := ExceptT Diagnostic Parse α

namespace Parse

instance : Monad Parse where
  pure a := fun s => ⟨a, s, List.suffix_refl _⟩
  bind p f := fun s =>
    let first := p s
    let second := f first.value first.next
    ⟨second.value, second.next, second.suffix.trans first.suffix⟩

namespace State

/-- The state before the first of some tokens. An end of input at their end is set apart;
where there is none, the input ends behind the last token. -/
def initial (tokens : List Token) : State :=
  match tokens.getLast? with
  | none => { rest := [], finish := .point 0 }
  | some t =>
    if t.kind = .endOfInput then { rest := tokens.dropLast, finish := t.span }
    else { rest := tokens, finish := .point t.span.stop }

/-- The next token, or the end of input. -/
def token (s : State) : Token :=
  match s.rest with
  | [] => ⟨.endOfInput, Token.endValue, s.finish⟩
  | t :: _ => t

/-- The kind of the next token. -/
def kind (s : State) : Kind := s.token.kind

/-- The kind of the token `n` places further on. -/
def kindAt (s : State) (n : Nat) : Kind :=
  match s.rest[n]? with
  | some t => t.kind
  | none => .endOfInput

/-- The state with the next `n` tokens read. -/
def drop (s : State) (n : Nat) : State :=
  { s with
    rest := s.rest.drop n
    lastEnd := match (s.rest.take n).getLast? with
      | some t => t.span.stop
      | none => s.lastEnd }

/-- The tokens that were read between an earlier state and this one. -/
def readSince (s earlier : State) : List Token :=
  earlier.rest.take (earlier.rest.length - s.rest.length)

/-- The diagnostic for a next token that is not what was expected. -/
def unexpected (s : State) (expectation : String) : Diagnostic :=
  match s.token with
  | ⟨.endOfInput, _, span⟩ => ⟨.unexpectedEnd expectation, span⟩
  | ⟨_, value, span⟩ => ⟨.unexpectedTokenDetailed value ("expected " ++ expectation), span⟩

/-- From the start of a span to the end of the last token read. -/
def spanFrom (s : State) (start : Span) : Span := ⟨start.start, max s.lastEnd start.stop⟩

end State

/-- The current state. -/
def state : Parse State := fun s => ⟨s, s, List.suffix_refl _⟩

/-- The kind of the next token. -/
def kind : Parse Kind := fun s => ⟨s.kind, s, List.suffix_refl _⟩

/-- Reads the next `n` tokens. -/
def skip (n : Nat) : Parse Unit := fun s => ⟨(), s.drop n, List.drop_suffix n s.rest⟩

/-- Reads the next token. The end of input is never passed. -/
def advance : Parse Token := fun s =>
  match h : s.rest with
  | [] => ⟨s.token, { s with lastEnd := s.finish.stop }, List.suffix_refl _⟩
  | t :: ts => ⟨t, { s with rest := ts, lastEnd := t.span.stop }, h ▸ List.suffix_cons t ts⟩

/-- Keeps a diagnostic. -/
def report (d : Diagnostic) : Parse Unit := fun s =>
  ⟨(), { s with diagnostics := s.diagnostics.push d }, List.suffix_refl _⟩

/-- Reports that the next token is not what was expected. -/
def reportUnexpected (expectation : String) : Parse Unit := do
  report ((← state).unexpected expectation)

/-- Takes the next block number. -/
def freshId : Parse Nat := fun s =>
  ⟨s.nextId, { s with nextId := s.nextId + 1 }, List.suffix_refl _⟩

/-- From the start of a span to the end of the last token read. -/
def spanFrom (start : Span) : Parse Span := do return (← state).spanFrom start

/-- Fails because the next token is not what was expected. -/
def failUnexpected (expectation : String) : Attempt α := do
  throw ((← (state : Parse State)).unexpected expectation)

/-- Reads a token of this kind, or fails. -/
def expect (k : Kind) (expectation : String) : Attempt Token := do
  if (← (kind : Parse Kind)) = k then (advance : Parse Token) else failUnexpected expectation

@[simp] theorem pure_apply (a : α) (s : State) :
    (pure a : Parse α) s = ⟨a, s, List.suffix_refl _⟩ := rfl

@[simp] theorem value_bind (p : Parse α) (f : α → Parse β) (s : State) :
    ((p >>= f) s).value = (f (p s).value (p s).next).value := rfl

@[simp] theorem next_bind (p : Parse α) (f : α → Parse β) (s : State) :
    ((p >>= f) s).next = (f (p s).value (p s).next).next := rfl

/-- A parser never makes the tokens that are left longer. -/
theorem length_next_le (p : Parse α) (s : State) : (p s).next.rest.length ≤ s.rest.length :=
  (p s).suffix.length_le

end Parse

end Sqf
