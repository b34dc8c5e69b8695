import Sqf.Command.Table
import Sqf.Check.Settings
import Sqf.Parse.Program
import Sqf.Scope

/-!
# Checking a script

The checker goes through a tree once, in the order of evaluation. It finds the
type of every expression, resolves commands against the table, and binds locals
in scopes. Nothing stops it: an expression that cannot be typed has type `any`,
and the problem is reported.
-/

namespace Sqf

namespace Check

/-- What a check does not change. -/
structure Context where
  table : Table
  settings : Settings

/-- What a check has found so far. -/
structure State where
  scopes : Scopes := .root
  diagnostics : Array Diagnostic := #[]

end Check

/-- A step of a check, with the state it changes. -/
abbrev Check (α : Type) : Type := StateM Check.State α

namespace Check

/-- The locals that are there without being bound, in lower case. -/
def magicVariables : List String :=
  ["_this", "_x", "_foreachindex", "_thiseventhandler", "_exception"]

/-- Keeps a problem. -/
def report (cause : Cause) (span : Span) : Check Unit :=
  modify fun s => { s with diagnostics := s.diagnostics.push ⟨cause, span⟩ }

/-- Opens a scope within the one at index `here` and gives its index. -/
def openScope (here id : Nat) : Check Nat := do
  let s ← get
  set { s with scopes := s.scopes.enter id here }
  return s.scopes.all.size

/-- Binds a local in the scope at an index. -/
def declare (here : Nat) (name : String) (type : ValueType) : Check Unit :=
  modify fun s => { s with scopes := s.scopes.bindAt here name type }

/-- Binds locals of type `any`. -/
def declareAll (here : Nat) : List String → Check Unit
  | [] => return
  | name :: names => do
    declare here name .any
    declareAll here names

/-- Gives a local a type where it is bound; one that is bound nowhere is bound here. -/
def assign (here : Nat) (name : String) (type : ValueType) : Check Unit := do
  let s ← get
  let index := match s.scopes.resolve here name with
    | some (index, _) => index
    | none => here
  declare index name type

/-- Reports a type that may not stand where another one is expected. -/
def checkType (expected received : ValueType) (span : Span) : Check Unit := do
  if !expected.accepts received then
    report (.typeMismatch expected.displayName received.displayName) span

/-- The type of a local that is read. -/
def localType (cx : Context) (here : Nat) (n : Name) : Check ValueType := do
  if magicVariables.contains n.normalized then return .any
  let s ← get
  match s.scopes.resolve here n.text with
  | some (_, type) => return type
  | none =>
    if cx.settings.warnUndefinedLocals then report (.undefinedVariable n.text) n.span
    return .any

/-- The type of a global name: a command without operands, a function, or a variable, of
which nothing is known. A command that needs operands is reported. -/
def globalType (cx : Context) (n : Name) : Check ValueType := do
  match cx.table.overloads n.text .nular with
  | s :: _ => return s.returns
  | [] =>
    if cx.settings.isFunction n.text then return .code
    if cx.table.isKnown n.text then
      report (.unsupportedArity n.text Arity.nular.name) n.span
    return .any

/-- The type of a name. -/
def nameType (cx : Context) (here : Nat) (n : Name) : Check ValueType :=
  if n.isLocal then localType cx here n else globalType cx n

/-- Whether a command has a form of this arity. If it has none, that is reported. -/
def commandExists (cx : Context) (command : Name) (arity : Arity) : Check Bool := do
  if cx.table.has command.text arity then return true
  report (if cx.table.isKnown command.text then .unsupportedArity command.text arity.name
    else .unknownCommand command.text) command.span
  return false

/-- The type that a command yields for operands with these types and places. If no overload
takes them, the operand that the closest one refuses is reported. -/
def resultType (cx : Context) (command : Name) (arity : Arity)
    (operands : List (ValueType × Span)) : Check ValueType := do
  match cx.table.resolve command.text arity (operands.map (·.1)) with
  | .found s => return s.returns
  | .noMatch closest argument =>
    let expected := (closest.parameters[argument]?.map fun p => p.type.displayName).getD ""
    let received := (operands[argument]?.map fun o => o.1.displayName).getD ""
    let span := (operands[argument]?.map (·.2)).getD {}
    report (.noApplicableOverload command.text (some argument) expected received) span
    return .any
  | .unknown | .unsupportedArity => return .any

/-- The name that an element of a declaration binds: a string, the string at the start of an
array, or a local itself. -/
def declaredName? : Expr → Option String
  | .string value _ => some value
  | .array (.string value _ :: _) _ => some value
  | .name n => some n.text
  | _ => none

/-- The locals that `params` and `private` declare by their operand. -/
def declaredNames (command : Name) (operand : Expr) : List String :=
  if command.normalized == "params" || command.normalized == "private" then
    let elements := match operand with
      | .array elements _ => elements
      | other => [other]
    (elements.filterMap declaredName?).filter isLocalName
  else []

/-- The number of the scope that holds a loop with a header of three parts: that of the block
it starts with, else that of its body, else 0. -/
def classicScopeId (init : Option Expr) (body : Option Block) : Nat :=
  match init with
  | some (.block b) => b.id
  | _ =>
    match body with
    | some b => b.id
    | none => 0

mutual

/-- The type of an expression in the scope at index `here`. -/
def expr (cx : Context) (here : Nat) : Expr → Check ValueType
  | .number _ _ => return .number
  | .string _ _ => return .string
  | .name n => nameType cx here n
  | .array elements _ => do
    let types ← exprs cx here elements
    return .ofElements types
  | .block b => do
    let _ ← block cx here [] b
    return .code
  | .unary command operand _ => do
    let known ← commandExists cx command .unary
    declareAll here (declaredNames command operand)
    let type ← expr cx here operand
    if known then resultType cx command .unary [(type, operand.span)] else return .any
  | .binary _ left command right _ => do
    let leftType ← expr cx here left
    let known ← commandExists cx command .binary
    let rightType ← expr cx here right
    declareAll here (declaredNames command right)
    if known then
      resultType cx command .binary [(leftType, left.span), (rightType, right.span)]
    else return .any
  | .control c => control cx here c
  | .error _ => return .any

/-- The types of expressions, from first to last. -/
def exprs (cx : Context) (here : Nat) : List Expr → Check (List ValueType)
  | [] => return []
  | e :: es => do
    let type ← expr cx here e
    let types ← exprs cx here es
    return type :: types

/-- The type of what a statement leaves behind. -/
def stmt (cx : Context) (here : Nat) : Stmt → Check ValueType
  | .expression e => expr cx here e
  | .assignment isPrivate target value _ => do
    let type ← expr cx here value
    if isPrivate then declare here target.text type
    else if target.isLocal then assign here target.text type
    return .nothing
  | .control c => control cx here c
  | .error _ => return .any

/-- Checks statements; the type is that of the last one, or `last` if there are none. -/
def stmts (cx : Context) (here : Nat) (last : ValueType) : List Stmt → Check ValueType
  | [] => return last
  | s :: ss => do
    let type ← stmt cx here s
    stmts cx here type ss

/-- Checks a block in a scope of its own, which starts with some locals. The type is that of
its last statement. -/
def block (cx : Context) (here : Nat) (locals : List (String × ValueType)) :
    Block → Check ValueType
  | ⟨id, statements, _⟩ => do
    let inside ← openScope here id
    locals.forM fun (name, type) => declare inside name type
    stmts cx inside .nothing statements

/-- The type of an expression that may be absent. -/
def expr? (cx : Context) (here : Nat) : Option Expr → Check (Option ValueType)
  | none => return none
  | some e => do
    let type ← expr cx here e
    return some type

/-- The value of a branch that may be absent: of a block that of its last statement. -/
def branch? (cx : Context) (here : Nat) : Option Expr → Check (Option ValueType)
  | none => return none
  | some (.block b) => do
    let type ← block cx here [] b
    return some type
  | some e => do
    let type ← expr cx here e
    return some type

/-- The condition of a loop is a block that yields a truth value, or else code. -/
def loopCondition (cx : Context) (here : Nat) (construct : String) (span : Span) :
    Option Expr → Check Unit
  | some (.block b) => do
    let type ← block cx here [] b
    checkType .boolean type b.span
  | some e => do
    let type ← expr cx here e
    checkType .code type e.span
  | none => report (.missingCondition construct) span

/-- A bound of a loop is a number. -/
def bound? (cx : Context) (here : Nat) : Option Expr → Check Unit
  | none => return
  | some e => do
    let type ← expr cx here e
    checkType .number type e.span

/-- The body of a construct, with locals of its own. -/
def body? (cx : Context) (here : Nat) (locals : List (String × ValueType)) (construct : String)
    (span : Span) : Option Block → Check Unit
  | some b => do
    let _ ← block cx here locals b
  | none => report (.missingBody construct) span

/-- The first part of a loop header. The statements of a block are checked in the scope of
the loop itself, so that the rest of the loop sees the locals they bind. -/
def init? (cx : Context) (here : Nat) : Option Expr → Check Unit
  | some (.block ⟨_, statements, _⟩) => do
    let _ ← stmts cx here .nothing statements
  | some e => do
    let _ ← expr cx here e
  | none => return

/-- The type of a control construct. -/
def control (cx : Context) (here : Nat) : Control → Check ValueType
  | .ifThen condition form thenPart otherwise span => do
    match condition with
    | some e => do
      let type ← expr cx here e
      checkType .boolean type e.span
    | none => report (.missingCondition "if") span
    let thenType ← match thenPart with
      | .block b => block cx here [] b
      | e => expr cx here e
    let otherType ← branch? cx here otherwise
    match form, otherType with
    | .thenBranch, some type => return if type.same thenType then thenType else .any
    | _, _ => return .any
  | .whileDo condition body span => do
    loopCondition cx here "while" span condition
    body? cx here [] "while" span body
    return .nothing
  | .forDo (.range name first last step) body span => do
    if first.isNone || last.isNone then report (.missingCondition "for") span
    bound? cx here first
    bound? cx here last
    bound? cx here step
    body? cx here [(name.text, .number)] "for" span body
    return .nothing
  | .forDo (.classic init condition step) body span => do
    let loop ← openScope here (classicScopeId init body)
    init? cx loop init
    loopCondition cx loop "for" span condition
    let _ ← expr? cx loop step
    body? cx loop [] "for" span body
    return .nothing
  | .forDo .missing body span => do
    report (.missingCondition "for") span
    body? cx here [] "for" span body
    return .nothing
  | .switchDo subject body span => do
    match subject with
    | some e => do
      let _ ← expr cx here e
    | none => report (.missingCondition "switch") span
    body? cx here [] "switch" span body
    return .any
  | .case _ condition b _ => do
    let _ ← expr? cx here condition
    match b with
    | some b => do
      let _ ← block cx here [] b
    | none => pure ()
    return .nothing

end

/-- Checks the statements of a script in the scope at index 0. -/
def program (cx : Context) (p : Program) : Check Unit := do
  let _ ← stmts cx 0 .nothing p.statements

end Check

/-- What a check has found. -/
structure Checked where
  diagnostics : List Diagnostic
  scopes : Scopes

/-- Checks a script against a table. Diagnostics are in the order in which the checker comes
upon them. -/
def check (table : Table) (settings : Settings) (p : Program) : Checked :=
  let (_, s) := (Check.program ⟨table, settings⟩ p).run {}
  ⟨s.diagnostics.toList, s.scopes⟩

/-- Reads and checks a source text. What is wrong with its form
comes before what is wrong with its types. -/
def checkSource (table : Table) (settings : Settings) (source : String) : List Diagnostic :=
  let parsed := parseSource table source
  parsed.diagnostics ++ (check table settings parsed.program).diagnostics

end Sqf
