import Sqf.Diagnostic
import Sqf.Tree

/-!
# Trees that differ in block numbers, texts or spans

A `Recast` says how to change the block numbers, the texts and the spans of a
tree. Its functions leave the shape of a tree as it is, so "the same tree up to
spans" is equality of the trees recast to have no spans.
-/

namespace Sqf

/-- What becomes of the block numbers, texts and spans of a tree. -/
structure Recast where
  id : Nat → Nat := fun n => n
  text : String → String := fun t => t
  span : Span → Span := fun s => s

namespace Recast

variable (r : Recast)

def name (n : Name) : Name := ⟨r.text n.text, r.span n.span⟩

def token (t : Token) : Token := ⟨t.kind, r.text t.value, r.span t.span⟩

/-- The cause with the texts that it quotes from the source changed. -/
def cause : Cause → Cause
  | .unrecognisedToken token => .unrecognisedToken (r.text token)
  | .unterminatedString => .unterminatedString
  | .unterminatedComment => .unterminatedComment
  | .unexpectedToken token => .unexpectedToken (r.text token)
  | .unexpectedTokenDetailed token message => .unexpectedTokenDetailed (r.text token) message
  | .unexpectedEnd expected => .unexpectedEnd expected
  | .malformedNumber token => .malformedNumber (r.text token)
  | .missingSeparator token => .missingSeparator (r.text token)
  | .nestingTooDeep limit => .nestingTooDeep limit
  | .unknownCommand command => .unknownCommand (r.text command)
  | .unsupportedArity command arity => .unsupportedArity (r.text command) arity
  | .noApplicableOverload command argument expected received =>
    .noApplicableOverload (r.text command) argument expected received
  | .typeMismatch expected received => .typeMismatch expected received
  | .missingCondition construct => .missingCondition construct
  | .missingBody construct => .missingBody construct
  | .undefinedVariable name => .undefinedVariable (r.text name)

def diagnostic (d : Diagnostic) : Diagnostic := ⟨r.cause d.cause, r.span d.span⟩

/-- Diagnostics have no block numbers. -/
theorem diagnostic_renumber (f : Nat → Nat) (d : Diagnostic) :
    ({ id := f } : Recast).diagnostic d = d := by
  rcases d with ⟨cause, span⟩
  cases cause <;> rfl

mutual

def expr : Expr → Expr
  | .number value span => .number value (r.span span)
  | .string value span => .string (r.text value) (r.span span)
  | .name n => .name (r.name n)
  | .array elements span => .array (exprs elements) (r.span span)
  | .block b => .block (block b)
  | .unary command operand span => .unary (r.name command) (expr operand) (r.span span)
  | .binary joint left command right span =>
    .binary joint (expr left) (r.name command) (expr right) (r.span span)
  | .control c => .control (control c)
  | .error span => .error (r.span span)

def exprs : List Expr → List Expr
  | [] => []
  | e :: es => expr e :: exprs es

def expr? : Option Expr → Option Expr
  | none => none
  | some e => some (expr e)

def block : Block → Block
  | ⟨id, statements, span⟩ => ⟨r.id id, stmts statements, r.span span⟩

def block? : Option Block → Option Block
  | none => none
  | some b => some (block b)

def stmt : Stmt → Stmt
  | .expression e => .expression (expr e)
  | .assignment isPrivate target value span =>
    .assignment isPrivate (r.name target) (expr value) (r.span span)
  | .control c => .control (control c)
  | .error span => .error (r.span span)

def stmts : List Stmt → List Stmt
  | [] => []
  | s :: ss => stmt s :: stmts ss

def control : Control → Control
  | .ifThen condition form branch otherwise span =>
    .ifThen (expr? condition) form (expr branch) (expr? otherwise) (r.span span)
  | .whileDo condition body span => .whileDo (expr? condition) (block? body) (r.span span)
  | .forDo header body span => .forDo (forHeader header) (block? body) (r.span span)
  | .switchDo subject body span => .switchDo (expr? subject) (block? body) (r.span span)
  | .case isDefault condition b span =>
    .case isDefault (expr? condition) (block? b) (r.span span)

def forHeader : ForHeader → ForHeader
  | .range loopVariable first last step =>
    .range (r.name loopVariable) (expr? first) (expr? last) (expr? step)
  | .classic init condition step => .classic (expr? init) (expr? condition) (expr? step)
  | .missing => .missing

end

/-! ## Common recasts -/

/-- Takes away spans. -/
def unplaced : Recast := { span := fun _ => {} }

/-- Takes away spans and changes block numbers. -/
def renumbered (f : Nat → Nat) : Recast := { id := f, span := fun _ => {} }

/-! ## A recast that changes nothing -/

mutual

/-- A recast that changes nothing leaves an expression as it is. -/
theorem expr_default (e : Expr) : ({} : Recast).expr e = e := by
  cases e with
  | array elements span => rw [expr, exprs_default elements]
  | block b => rw [expr, block_default b]
  | unary command operand span => rw [expr, expr_default operand]; rfl
  | binary joint left command right span =>
    rw [expr, expr_default left, expr_default right]; rfl
  | control c => rw [expr, control_default c]
  | _ => rfl

/-- It leaves a list of expressions as it is. -/
theorem exprs_default (es : List Expr) : ({} : Recast).exprs es = es := by
  cases es with
  | nil => rfl
  | cons e es => rw [exprs, expr_default e, exprs_default es]

theorem expr?_default (e : Option Expr) : ({} : Recast).expr? e = e := by
  cases e with
  | none => rfl
  | some e => rw [expr?, expr_default e]

/-- It leaves a block as it is. -/
theorem block_default (b : Block) : ({} : Recast).block b = b := by
  cases b with
  | mk id statements span => rw [block, stmts_default statements]

theorem block?_default (b : Option Block) : ({} : Recast).block? b = b := by
  cases b with
  | none => rfl
  | some b => rw [block?, block_default b]

/-- It leaves a statement as it is. -/
theorem stmt_default (s : Stmt) : ({} : Recast).stmt s = s := by
  cases s with
  | expression e => rw [stmt, expr_default e]
  | assignment isPrivate target value span => rw [stmt, expr_default value]; rfl
  | control c => rw [stmt, control_default c]
  | error span => rfl

theorem stmts_default (ss : List Stmt) : ({} : Recast).stmts ss = ss := by
  cases ss with
  | nil => rfl
  | cons s ss => rw [stmts, stmt_default s, stmts_default ss]

/-- It leaves a construct as it is. -/
theorem control_default (c : Control) : ({} : Recast).control c = c := by
  cases c with
  | ifThen condition form branch otherwise span =>
    rw [control, expr?_default condition, expr_default branch, expr?_default otherwise]
  | whileDo condition body span =>
    rw [control, expr?_default condition, block?_default body]
  | forDo header body span => rw [control, forHeader_default header, block?_default body]
  | switchDo subject body span => rw [control, expr?_default subject, block?_default body]
  | case isDefault condition b span =>
    rw [control, expr?_default condition, block?_default b]

theorem forHeader_default (header : ForHeader) : ({} : Recast).forHeader header = header := by
  cases header with
  | range loopVariable first last step =>
    rw [forHeader, expr?_default first, expr?_default last, expr?_default step]; rfl
  | classic init condition step =>
    rw [forHeader, expr?_default init, expr?_default condition, expr?_default step]
  | missing => rfl

end

/-- Expressions are recast one by one. -/
theorem exprs_eq_map (es : List Expr) : r.exprs es = es.map r.expr := by
  induction es with
  | nil => rfl
  | cons e es ih => rw [exprs, ih, List.map_cons]

theorem expr?_eq_map (e : Option Expr) : r.expr? e = e.map r.expr := by
  cases e <;> rfl

/-! ## Spans of what is recast -/

theorem span_control (c : Control) : (r.control c).span = r.span c.span := by
  cases c <;> rfl

/-- A recast changes the span of an expression as it changes all spans. -/
theorem span_expr (e : Expr) : (r.expr e).span = r.span e.span := by
  cases e with
  | block b => cases b; rfl
  | control c => exact span_control r c
  | _ => rfl

end Recast

end Sqf
