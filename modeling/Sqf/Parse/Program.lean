import Sqf.Parse.Expr
import Sqf.Token.Scan

/-!
# Reading a script

Statements are read one after the other up to the end of the block or of the
input. One that cannot be read is reported and leaves a placeholder, so reading
never stops at an error.

`level n` has the parsers for what may be nested `n` levels more. An expression
at a level reads its parts at the level below, and so does a block. At level 0
nothing is read any more: what stands there is reported and passed over.
-/

namespace Sqf.Parse

/-- What statements stand in. -/
inductive Enclosure where
  | file
  | block
deriving DecidableEq, Repr

namespace Level

/-- An assignment whose name is the next token. -/
def assignment (inner : Level) (isPrivate : Bool) (start : Span) : Attempt Stmt := do
  let name ← (advance : Parse Token)
  let _ ← expect .assignment "`=`"
  let value ← inner.expr .lowest
  return .assignment isPrivate ⟨name.value, name.span⟩ value (start.join value.span)

/-- A statement that is an expression. -/
def expressionStmt (inner : Level) : Attempt Stmt := do
  let e ← inner.expr .lowest
  return .expression e

/-- A statement. -/
def statement (inner : Level) : Attempt Stmt := do
  let s ← (state : Parse State)
  if s.kind = .privateWord && s.kindAt 1 = .identifier && s.kindAt 2 = .assignment then
    let start ← (advance : Parse Token)
    inner.assignment true start.span
  else if startsControl s.kind then
    let c ← (inner.control : Parse Control)
    return .control c
  else if s.kind = .identifier && s.kindAt 1 = .assignment then
    inner.assignment false s.token.span
  else inner.expressionStmt

/-- Reads the separator behind a statement. Its absence is reported, unless the block or
the input ends there. -/
def separator : Parse Unit := do
  let s ← state
  if s.kind.isSeparator then
    let _ ← advance
  else if s.kind ≠ .endOfInput && s.kind ≠ .closeCurly then
    report ⟨.missingSeparator s.token.value, s.token.span⟩

/-- Number of separators at the front. -/
def separators (ts : List Token) : Nat := (ts.takeWhile fun t => t.kind.isSeparator).length

/-- A statement with its separator; if it cannot be read, what is passed over instead. -/
def statementOrError (inner : Level) : Parse Stmt := do
  let start ← state
  match ← inner.statement.run with
  | .ok stmt =>
    separator
    return stmt
  | .error d =>
    report d
    return .error (← synchronize start)

/-- The statement that starts here, or nothing when there is no further one. A closing brace
outside of any block is reported and left behind. -/
def statementOrNone (inner : Level) (enclosure : Enclosure) : Parse (Option Stmt) := do
  match ← kind with
  | .endOfInput => return none
  | .closeCurly =>
    match enclosure with
    | .block => return none
    | .file =>
      let t ← advance
      report ⟨.unexpectedToken t.value, t.span⟩
      return some (.error t.span)
  | _ =>
    let stmt ← inner.statementOrError
    return some stmt

/-- One turn of the loop over statements: the next one behind all separators. -/
def turn (inner : Level) (enclosure : Enclosure) : Parse (Option Stmt) := do
  skip (separators (← state).rest)
  inner.statementOrNone enclosure

/-- Statements up to the end of the block or input. -/
def statements (inner : Level) (enclosure : Enclosure) : Parse (List Stmt) :=
  many (inner.turn enclosure)

/-- Reads the brace that closes a block; its absence is reported. -/
def closingBrace : Parse Unit := do
  if (← kind) = .closeCurly then
    let _ ← advance
  else reportUnexpected "`\x7d`"

/-- A code block. A missing closing brace is reported. -/
def codeBlock (inner : Level) : Parse Block := do
  let start ← advance
  let id ← freshId
  let ss ← inner.statements .block
  closingBrace
  return ⟨id, ss, ← spanFrom start.span⟩

/-- The placeholder for an expression that is nested too deeply. -/
def deepExpr : Attempt Expr := do
  let span ← (skipNested : Parse Span)
  return .error span

/-- The placeholder for a block that is nested too deeply. -/
def deepBlock : Parse Block := do
  let start := (← state).token.span
  let id ← freshId
  let span ← skipNested
  return ⟨id, [.error span], span.join start⟩

end Level

/-- The parsers for what may be nested `n` levels more. -/
def level (table : Table) : Nat → Level
  | 0 => ⟨fun _ => Level.deepExpr, Level.deepBlock⟩
  | n + 1 =>
    let inner := level table n
    ⟨inner.expression table, inner.codeBlock⟩

end Parse

/-- A script that has been read, and what was wrong with it. -/
structure Parsed where
  program : Program
  diagnostics : List Diagnostic

/-- Reads tokens as a script, names being told apart by a command table. -/
def parse (table : Table) (tokens : List Token) : Parsed :=
  let step := (Parse.level table Parse.maxNesting).statements .file (.initial tokens)
  ⟨⟨step.value, ⟨0, step.next.token.span.stop⟩⟩, step.next.diagnostics.toList⟩

/-- Scans and reads a source text. Diagnostics are in the order of their places, those of
the scanner before those of the parser at the same place. -/
def parseSource (table : Table) (source : String) : Parsed :=
  let scanned := scan source
  let parsed := parse table scanned.tokens
  { parsed with
    diagnostics := Diagnostic.sortByStart (scanned.diagnostics ++ parsed.diagnostics) }

end Sqf
