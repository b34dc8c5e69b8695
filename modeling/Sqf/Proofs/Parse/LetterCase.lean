import Sqf.Proofs.Parse.SideBySide
import Sqf.Proofs.Token.LetterCase

/-!
# Capital letters in a script

Tokens in lower case are read like the tokens themselves. The parser looks at
the kinds of tokens, at their places, at what a command table says of a name, and
at the value of a number, and none of these depends on capital letters. So the
two runs are a simulation, and give the same tree and the same reports with all
texts in lower case.
-/

namespace Sqf

open Recast (lowered)

/-! ## Command tables -/

namespace Table

variable (table : Table)

/-- A command is found by its name in lower case. -/
theorem has_toLower (name : String) (arity : Arity) :
    table.has name.toLower arity = table.has name arity := by
  unfold has
  rw [Text.toLower_idem]

/-- Whether there is one of any arity does not depend on capital letters. -/
theorem isKnown_toLower (name : String) : table.isKnown name.toLower = table.isKnown name := by
  unfold isKnown
  rw [Text.toLower_idem]

/-- Nor do the overloads that are found. -/
theorem overloads_toLower (name : String) (arity : Arity) :
    table.overloads name.toLower arity = table.overloads name arity := by
  unfold overloads
  rw [Text.toLower_idem]

/-- Neither does how tight an operator binds. -/
theorem tier?_lowered (t : Token) : table.tier? (lowered.token t) = table.tier? t := by
  show (if t.kind = .identifier then
      if table.has t.value.toLower .binary then some (.ofWord t.value.toLower.toLower) else none
    else Tier.ofKind? t.kind) = _
  rw [has_toLower, Text.toLower_idem]
  rfl

/-- Nor whether an operand may follow a name. -/
theorem startsOperand_lowered (ts : List Token) :
    table.startsOperand (ts.map lowered.token) = table.startsOperand ts := by
  induction ts with
  | nil => rfl
  | cons t ts ih =>
    have hlocal : isLocalName (lowered.token t).value = isLocalName t.value :=
      isLocalName_toLower t.value
    have hhas (arity : Arity) : table.has (lowered.token t).value arity = table.has t.value arity :=
      table.has_toLower t.value arity
    rw [List.map_cons, startsOperand, startsOperand, hlocal, hhas, hhas, ih]
    rfl

end Table

namespace Parse

/-! ## Skips -/

section Skips

variable (r : Recast)

/-- A recast changes no kinds, so as many tokens are nested too deep. -/
theorem nestedLength_map (depth : Nat) (ts : List Token) :
    nestedLength depth (ts.map r.token) = nestedLength depth ts := by
  induction ts generalizing depth with
  | nil => rfl
  | cons t ts ih => simp only [List.map_cons, nestedLength, Recast.token, ih]

/-- As many tokens stand before one that is looked for. -/
theorem untilLength_map (stops : List Kind) (depth : Nat) (ts : List Token) :
    untilLength stops depth (ts.map r.token) = untilLength stops depth ts := by
  induction ts generalizing depth with
  | nil => rfl
  | cons t ts ih => simp only [List.map_cons, untilLength, Recast.token, ih]

/-- A statement that is skipped has as many tokens. -/
theorem statementLength_map (curly groups : Nat) (ts : List Token) :
    statementLength curly groups (ts.map r.token) = statementLength curly groups ts := by
  induction ts generalizing curly groups with
  | nil => rfl
  | cons t ts ih => simp only [List.map_cons, statementLength, Recast.token, ih]

/-- As many brackets are open. -/
theorem openGroups_map (ts : List Token) : openGroups (ts.map r.token) = openGroups ts := by
  unfold openGroups
  rw [List.foldl_map]
  rfl

/-- As many separators come next. -/
theorem separators_map (ts : List Token) :
    Level.separators (ts.map r.token) = Level.separators ts := by
  unfold Level.separators
  rw [List.takeWhile_map, List.length_map]
  rfl

end Skips

/-! ## The two runs -/

/-- The first run reads the tokens of the second one in lower case, and has found what the second
one has, in lower case. -/
structure LowerCase (s s' : State) : Prop where
  rest : s.rest = s'.rest.map lowered.token
  finish : s.finish = s'.finish
  lastEnd : s.lastEnd = s'.lastEnd
  nextId : s.nextId = s'.nextId
  diagnostics : s.diagnostics = s'.diagnostics.map lowered.diagnostic

namespace LowerCase

variable {s s' : State}

/-- The next token is in lower case, or is the end of input in both runs. -/
theorem token_cases (h : LowerCase s s') :
    s.token = lowered.token s'.token ∨ s.kind = .endOfInput ∧ s.token = s'.token := by
  cases hs' : s'.rest with
  | nil =>
    have hs : s.rest = [] := by rw [h.rest, hs', List.map_nil]
    refine .inr ⟨State.kind_nil hs, ?_⟩
    simp only [State.token, hs, hs', h.finish]
  | cons t ts =>
    have hs : s.rest = lowered.token t :: ts.map lowered.token := by
      rw [h.rest, hs', List.map_cons]
    rw [State.token_cons hs, State.token_cons hs']
    exact .inl rfl

/-- The next tokens of the two runs differ in letter case only. -/
theorem token_eq (h : LowerCase s s') (hne : s.kind ≠ .endOfInput) :
    s.token = lowered.token s'.token :=
  h.token_cases.resolve_right fun hend => hne hend.1

/-- They are of the same kind. -/
theorem kind_eq (h : LowerCase s s') : s.kind = s'.kind := by
  unfold State.kind
  rcases h.token_cases with htoken | ⟨-, htoken⟩
  · rw [htoken, Recast.token]
  · rw [htoken]

/-- They stand at the same place. -/
theorem place_eq (h : LowerCase s s') : s.token.span = s'.token.span := by
  rcases h.token_cases with htoken | ⟨-, htoken⟩
  · rw [htoken]
    rfl
  · rw [htoken]

/-- So are the tokens further on. -/
theorem kindAt_eq (h : LowerCase s s') (n : Nat) : s.kindAt n = s'.kindAt n := by
  unfold State.kindAt
  rw [h.rest, List.getElem?_map]
  cases s'.rest[n]? <;> rfl

/-- Both runs may drop tokens. -/
theorem drop (h : LowerCase s s') (n : Nat) : LowerCase (s.drop n) (s'.drop n) := by
  refine ⟨?_, h.finish, ?_, h.nextId, h.diagnostics⟩
  · show s.rest.drop n = (s'.rest.drop n).map lowered.token
    rw [h.rest, List.map_drop]
  · unfold State.drop
    dsimp only
    rw [h.rest, h.lastEnd, ← List.map_take, List.getLast?_map]
    cases (s'.rest.take n).getLast? <;> rfl

/-- Both runs may read one. -/
theorem advance (h : LowerCase s s') :
    LowerCase (Parse.advance s).next (Parse.advance s').next := by
  rw [next_advance_eq, next_advance_eq]
  refine ⟨?_, h.finish, ?_, h.nextId, h.diagnostics⟩
  · show s.rest.tail = s'.rest.tail.map lowered.token
    rw [h.rest, List.map_tail]
  · exact congrArg Span.stop h.place_eq

/-- They have as many left. -/
theorem length_eq (h : LowerCase s s') : s.rest.length = s'.rest.length := by
  rw [h.rest, List.length_map]

/-- All of the reading keeps the two runs together. -/
theorem simulation (table : Table) :
    Simulation table table lowered (fun _ => LowerCase) (fun _ => True) where
  loops_succ _ := trivial
  span _ := rfl
  kind h := h.kind_eq
  place h := h.place_eq
  text h hne := congrArg Token.value (h.token_eq hne)
  isLocal h hk := by
    rw [h.token_eq (by simp [hk])]
    exact isLocalName_toLower _
  numeral h hk := by
    rw [h.token_eq (by simp [hk])]
    exact Numeral.read?_toLower _
  tier h hne := by rw [h.token_eq hne, table.tier?_lowered]
  startsOperand h := by rw [h.rest, table.startsOperand_lowered]
  assigns h _ := by rw [h.kindAt_eq]
  assignsPrivately h _ := by rw [h.kindAt_eq, h.kindAt_eq]
  lastEnd h := h.lastEnd
  shorter h ht := by rw [h.length_eq, ht.length_eq]
  advance h _ _ _ _ := h.advance
  enter h _ := h.advance
  leave h _ := h.advance
  weaken := id
  report := by
    intro _ s s' d h
    refine ⟨h.rest, h.finish, h.lastEnd, h.nextId, ?_⟩
    rw [next_report, next_report, h.diagnostics, Array.map_push]
  nextId h := h.nextId
  freshId h := ⟨h.rest, h.finish, h.lastEnd, congrArg (· + 1) h.nextId, h.diagnostics⟩
  stall h := ⟨h.rest, h.finish, h.lastEnd, h.nextId, h.diagnostics⟩
  dropNested h := by
    rw [h.rest, nestedLength_map]
    exact h.drop _
  dropUntil stops h := by
    rw [h.rest, untilLength_map]
    exact h.drop _
  dropStatement := by
    intro _ s s' t t' _ h ht _
    have hread : t.readSince s = (t'.readSince s').map lowered.token := by
      unfold State.readSince
      rw [h.length_eq, ht.length_eq, h.rest, List.map_take]
    rw [hread, openGroups_map, ht.rest, statementLength_map]
    exact ht.drop _
  dropSeparators _ h := by
    rw [h.rest, separators_map]
    exact h.drop _

/-- The two runs start like this. -/
theorem initial (ts : List Token) (stop : Nat) :
    LowerCase (.initial (ts.map lowered.token ++ [.endAt stop]))
      (.initial (ts ++ [.endAt stop])) := by
  have hinitial (us : List Token) :
      State.initial (us ++ [.endAt stop]) = { rest := us, finish := .point stop } := by
    simp [State.initial, Token.endAt]
  rw [hinitial, hinitial]
  exact ⟨rfl, rfl, rfl, rfl, Array.map_empty.symm⟩

end LowerCase

end Parse

/-! ## Whole scripts -/

/-- A script with the numbers, texts and spans of its tree changed. -/
def Recast.program (r : Recast) (p : Program) : Program := ⟨r.stmts p.statements, r.span p.span⟩

namespace Parsed

/-- What was read of a script, with all texts in lower case. -/
def lowered (parsed : Parsed) : Parsed :=
  ⟨Recast.lowered.program parsed.program, parsed.diagnostics.map Recast.lowered.diagnostic⟩

end Parsed

/-- Tokens in lower case are read as the same tree in lower case, with the same reports. -/
theorem parse_lowered (table : Table) (ts : List Token) (stop : Nat) :
    parse table (ts.map lowered.token ++ [.endAt stop]) =
      (parse table (ts ++ [.endAt stop])).lowered := by
  have sim := Parse.LowerCase.simulation table
  have hinitial := Parse.LowerCase.initial ts stop
  obtain ⟨hvalue, hnext⟩ := sim.agree_statements (sim.level Parse.maxNesting) (k := 0) trivial
    hinitial .file fun _ {_ _} h _ => h.advance
  have hplace := hnext.place_eq
  unfold parse
  simp only [hvalue, hplace, hnext.diagnostics, Array.toList_map]
  rfl

/-- Diagnostics are sorted by their places, which lowering keeps. -/
theorem Diagnostic.sortByStart_lowered (ds : List Diagnostic) :
    sortByStart (ds.map lowered.diagnostic) = (sortByStart ds).map lowered.diagnostic := by
  unfold sortByStart
  rw [List.map_mergeSort]
  exact fun _ _ _ _ => rfl

/-- A script in lower case is read as the script is, with its texts in lower case. -/
theorem parse_scan_toLower (table : Table) (source : String) :
    parse table (scan source.toLower).tokens = (parse table (scan source).tokens).lowered := by
  rw [scan_toLower_tokens, scan_tokens, parse_lowered]

/-- A script in lower case is read as the tree of the script itself in lower case, with the same
reports in the same order. -/
theorem parseSource_toLower (table : Table) (source : String) :
    parseSource table source.toLower = (parseSource table source).lowered := by
  unfold parseSource
  simp only [parse_scan_toLower, scan_toLower_diagnostics, Parsed.lowered, ← List.map_append,
    Diagnostic.sortByStart_lowered]

end Sqf
