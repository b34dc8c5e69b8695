import Sqf.Parse.State

/-!
# Going on after an error

When a part of a script cannot be read, some tokens are passed over and reading
goes on behind them. How many is decided by counting brackets, in three ways:
to the end of a region that is nested too deeply, to a keyword of the construct
being read, and to the end of the statement. All three stay inside of the
enclosing block.
-/

namespace Sqf.Parse

/-- Number of tokens up to the closer of the enclosing group, or to a separator outside of
any group opened on the way. `depth` counts the groups that are open. -/
def nestedLength (depth : Nat) : List Token → Nat
  | [] => 0
  | t :: ts =>
    if t.kind = .endOfInput then 0
    else if depth = 0 && (t.kind.closesGroup || t.kind.isSeparator) then 0
    else if t.kind.opensGroup then nestedLength (depth + 1) ts + 1
    else if t.kind.closesGroup then nestedLength (depth - 1) ts + 1
    else nestedLength depth ts + 1

/-- Number of tokens up to one of the kinds `stops`, or to a separator or closing brace;
those inside of groups opened on the way do not count. -/
def untilLength (stops : List Kind) (depth : Nat) : List Token → Nat
  | [] => 0
  | t :: ts =>
    if t.kind = .endOfInput then 0
    else if depth = 0 && (stops.contains t.kind || t.kind.isSeparator || t.kind == .closeCurly) then
      0
    else if t.kind.opensGroup then untilLength stops (depth + 1) ts + 1
    else if t.kind.closesGroup then untilLength stops (depth - 1) ts + 1
    else untilLength stops depth ts + 1

/-- Number of tokens to the end of the statement: through a semicolon outside of braces,
through a comma outside of all brackets, or up to the brace that closes the block. `curly`
and `groups` count the open braces and the open brackets of the other two sorts. -/
def statementLength (curly groups : Nat) : List Token → Nat
  | [] => 0
  | t :: ts =>
    match t.kind with
    | .endOfInput => 0
    | .closeCurly => if curly = 0 then 0 else statementLength (curly - 1) groups ts + 1
    | .openCurly => statementLength (curly + 1) groups ts + 1
    | .openParen | .openBracket => statementLength curly (groups + 1) ts + 1
    | .closeParen | .closeBracket => statementLength curly (groups - 1) ts + 1
    | .semicolon => if curly = 0 then 1 else statementLength curly groups ts + 1
    | .comma => if curly = 0 && groups = 0 then 1 else statementLength curly groups ts + 1
    | _ => statementLength curly groups ts + 1

/-- Number of parentheses and brackets that are open behind these tokens. A closer without
an opener counts for nothing. -/
def openGroups (ts : List Token) : Nat :=
  ts.foldl (fun n t =>
    match t.kind with
    | .openParen | .openBracket => n + 1
    | .closeParen | .closeBracket => n - 1
    | _ => n) 0

/-- Reads `n` tokens and gives their span, which is empty if there are none. -/
def skipSpan (n : Nat) : Parse Span := do
  let before ← state
  skip n
  let after ← state
  let start := before.token.span.start
  return if after.rest.length < before.rest.length then ⟨start, after.lastEnd⟩ else .point start

/-- Reports that the nesting goes too deep, and passes over what is nested. -/
def skipNested : Parse Span := do
  let s ← state
  report ⟨.nestingTooDeep maxNesting, s.token.span⟩
  skipSpan (nestedLength 0 s.rest)

/-- Passes over tokens up to one of these kinds, but not out of the statement. -/
def skipUntil (stops : List Kind) : Parse Unit := do
  skip (untilLength stops 0 (← state).rest)

/-- Passes over the rest of a statement that was begun in the state `start`, and gives the
span of the whole statement. Brackets it opened before it failed count as open. -/
def synchronize (start : State) : Parse Span := do
  let s ← state
  skip (statementLength 0 (openGroups (s.readSince start)) s.rest)
  let after ← state
  let first := start.token.span.start
  return if after.rest.length < start.rest.length then ⟨first, after.lastEnd⟩ else .point first

end Sqf.Parse
