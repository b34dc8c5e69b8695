import Sqf.Parse.Recovery
import Sqf.Precedence
import Sqf.Tree

/-!
# Reading control constructs

A control construct starts with its keyword and is always read: parts that
cannot be read are reported and left out, and reading goes on at the next
keyword of the construct.

The parsers here are given the parsers for what stands inside of the construct
as a `Level`.
-/

namespace Sqf.Parse

/-- The parsers for what stands inside of a construct. -/
structure Level where
  /-- An expression whose operators all bind more tightly than a tier. -/
  expr : Tier → Attempt Expr
  /-- A code block, whose opening brace is the next token. -/
  block : Parse Block

namespace Level

/-- An expression, or nothing after a report. -/
def part (inner : Level) (tier : Tier) : Parse (Option Expr) := do
  match ← (inner.expr tier).run with
  | .ok e => return some e
  | .error d =>
    report d
    return none

/-- An expression, or nothing after a report and a skip to one of the kinds. -/
def partOrSkip (inner : Level) (tier : Tier) (stops : List Kind) : Parse (Option Expr) := do
  let found ← inner.part tier
  if found.isNone then skipUntil stops
  return found

/-- The expression of a branch; a placeholder stands for one that cannot be read. -/
def branch (inner : Level) : Parse Expr := do
  match ← (inner.expr .unary).run with
  | .ok e => return e
  | .error d =>
    report d
    return .error d.span

/-- A block, or nothing after a report. -/
def blockPart (inner : Level) (expectation : String) : Parse (Option Block) := do
  if (← kind) = .openCurly then
    let b ← inner.block
    return some b
  else
    reportUnexpected expectation
    return none

/-- The keyword `do` with a block behind it. -/
def doBody (inner : Level) : Parse (Option Block) := do
  if (← kind) = .doWord then
    let _ ← advance
    inner.blockPart "`\x7b` after `do`"
  else
    reportUnexpected "`do`"
    return none

/-- What follows the condition of an `if`. Without a keyword there the branch is a
placeholder; this is reported unless the condition, of which `hasCondition` tells whether
it was read, has been reported already. -/
def ifBranch (inner : Level) (hasCondition : Bool) : Parse (IfForm × Expr) := do
  match ← kind with
  | .thenWord =>
    let _ ← advance
    return (.thenBranch, ← inner.branch)
  | .exitWithWord =>
    let _ ← advance
    return (.exitWith, ← inner.branch)
  | _ =>
    if hasCondition then reportUnexpected "`then` or `exitWith`"
    return (.thenBranch, .error (.point (← state).token.span.start))

/-- The branch behind `else`, if it is there. It may stand behind a `then` only. -/
def elseBranch (inner : Level) (form : IfForm) : Parse (Option Expr) := do
  if form = .thenBranch && (← kind) = .elseWord then
    let _ ← advance
    let e ← inner.branch
    return some e
  else return none

/-- Reads `if CONDITION then A else B`, or `if CONDITION exitWith A`. -/
def ifThen (inner : Level) : Parse Control := do
  let start ← advance
  let condition ← inner.partOrSkip .unary [.thenWord, .exitWithWord]
  let (form, thenPart) ← inner.ifBranch condition.isSome
  let otherwise ← inner.elseBranch form
  return .ifThen condition form thenPart otherwise (← spanFrom start.span)

/-- Reads `while CONDITION do BODY`. -/
def whileDo (inner : Level) : Parse Control := do
  let start ← advance
  let condition ← inner.partOrSkip .unary [.doWord]
  let body ← inner.doBody
  return .whileDo condition body (← spanFrom start.span)

/-- A bound of a loop behind its keyword, or nothing after a skip to the `do`. -/
def bound (inner : Level) : Parse (Option Expr) := do
  let _ ← advance
  inner.partOrSkip .command [.doWord]

/-- A bound that has to be there, behind its keyword. -/
def requiredBound (inner : Level) (keyword : Kind) (expectation : String) :
    Parse (Option Expr) := do
  if (← kind) = keyword then inner.bound
  else
    reportUnexpected expectation
    skipUntil [.doWord]
    return none

/-- Reads `NAME from FIRST to LAST step STEP`, where the step may be left out. The bounds behind
one that is missing are missing too. -/
def rangeHeader (inner : Level) : Parse ForHeader := do
  let token ← advance
  let name : Name := ⟨token.value, token.span⟩
  let first ← inner.requiredBound .fromWord "`from`"
  if first.isNone then return .range name none none none
  let last ← inner.requiredBound .toWord "`to`"
  if last.isNone then return .range name first none none
  if (← kind) = .stepWord then
    let step ← inner.bound
    return .range name first last step
  else return .range name first last none

/-- Reads `[INIT, CONDITION, STEP]`. Elements beyond the third are passed over. -/
def classicHeader (inner : Level) : Parse ForHeader := do
  match ← inner.part .unary with
  | some (.array elements _) => return .classic elements[0]? elements[1]? elements[2]?
  | _ =>
    skipUntil [.doWord]
    return .missing

/-- Reads `for HEADER do BODY`. -/
def forDo (inner : Level) : Parse Control := do
  let start ← advance
  let header ← match ← kind with
    | .string => inner.rangeHeader
    | .openBracket => inner.classicHeader
    | _ => do
      reportUnexpected "a loop variable or `[`"
      skipUntil [.doWord]
      pure .missing
  let body ← inner.doBody
  return .forDo header body (← spanFrom start.span)

/-- Reads `switch SUBJECT do BODY`. -/
def switchDo (inner : Level) : Parse Control := do
  let start ← advance
  let subject ← inner.partOrSkip .unary [.doWord]
  let body ← inner.doBody
  return .switchDo subject body (← spanFrom start.span)

/-- The kinds that tell that a `case` has no condition. -/
def endsCase : Kind → Bool
  | .colon | .semicolon | .comma | .closeCurly | .endOfInput => true
  | _ => false

/-- The condition of a `case`, if it has one. -/
def caseCondition (inner : Level) (isDefault : Bool) : Parse (Option Expr) := do
  if isDefault || endsCase (← kind) then return none
  else inner.partOrSkip .lowest [.colon]

/-- Reads the colon behind a condition, if it is there. -/
def caseColon : Parse Unit := do
  if (← kind) = .colon then
    let _ ← advance

/-- A block, if the next token opens one. -/
def caseBlock (inner : Level) : Parse (Option Block) := do
  if (← kind) = .openCurly then
    let b ← inner.block
    return some b
  else return none

/-- Reads `case CONDITION: BLOCK` and `default: BLOCK`. The condition, the colon and the
block may each be left out. -/
def case (inner : Level) : Parse Control := do
  let start ← advance
  let isDefault := start.kind == .defaultWord
  let condition ← inner.caseCondition isDefault
  caseColon
  let block ← inner.caseBlock
  return .case isDefault condition block (← spanFrom start.span)

/-- The control construct whose keyword is the next token. -/
def control (inner : Level) : Parse Control := do
  match ← kind with
  | .ifWord => inner.ifThen
  | .whileWord => inner.whileDo
  | .forWord => inner.forDo
  | .switchWord => inner.switchDo
  | _ => inner.case

end Level

/-- The keywords with which a control construct starts. -/
def startsControl : Kind → Bool
  | .ifWord | .whileWord | .forWord | .switchWord | .caseWord | .defaultWord => true
  | _ => false

end Sqf.Parse
