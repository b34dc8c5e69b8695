import Sqf.Proofs.Check.Steps
import Sqf.Proofs.Tree.Node

/-!
# What a check comes to

The check of an expression, a statement or a block is made of steps of its own and of checks of
what stands inside. A visit is such a check, with the scope and the state in which it starts, and
`inside` lists the visits that a visit makes itself.
-/

namespace Sqf

/-- What a loop with a header of three parts starts with. -/
def Control.init? : Control → Option Expr
  | forDo (.classic init _ _) _ _ => init
  | _ => none

/-- The use of a command with operands: the command, how many operands it has, and the operands. -/
def Expr.call? : Expr → Option (Name × Arity × List Expr)
  | .unary command operand _ => some (command, .unary, [operand])
  | .binary _ left command right _ => some (command, .binary, [left, right])
  | _ => none

/-- A call has as many operands as its arity says. -/
theorem Expr.length_of_call? {e : Expr} {command : Name} {arity : Arity} {operands : List Expr}
    (h : e.call? = some (command, arity, operands)) : operands.length = arity.operands := by
  unfold call? at h
  split at h
  · cases h
    rfl
  · cases h
    rfl
  · cases h

/-- Whether the cause is that no overload of a command takes the operands. -/
def Cause.isRefusal : Cause → Bool
  | noApplicableOverload .. => true
  | _ => false

namespace Check

/-- The number of the scope that a construct opens for all of its parts. -/
def controlScope? : Control → Option Nat
  | .forDo (.classic init _ _) body _ => some (classicScopeId init body)
  | _ => none

/-- A loop that starts with a block has the scope of this block as its own. -/
theorem controlScope?_of_init {c : Control} {b : Block} (h : c.init? = some (.block b)) :
    controlScope? c = some b.id := by
  unfold Control.init? at h
  split at h
  · cases h
    rfl
  · cases h

/-! ## Visits -/

/-- What is checked. A block has a scope of its own, which starts with some locals, unless its
statements are checked as they stand. -/
inductive Subject where
  | expr (e : Expr)
  | stmt (a : Stmt)
  | block (locals : List (String × ValueType)) (b : Block)
  | inline (b : Block)

namespace Subject

def check (cx : Context) (here : Nat) : Subject → Check ValueType
  | expr e => Check.expr cx here e
  | stmt a => Check.stmt cx here a
  | block locals b => Check.block cx here locals b
  | inline b => stmts cx here .nothing b.statements

/-- A branch yields a value: a block that of its last statement, an expression its own. -/
def ofBranch : Expr → Subject
  | .block b => block [] b
  | e => expr e

/-- What a loop starts with has no scope but that of the loop. -/
def ofInit : Expr → Subject
  | .block b => inline b
  | e => expr e

/-- The use of a command that is checked. -/
def call? : Subject → Option (Name × Arity × List Expr)
  | expr e => e.call?
  | _ => none

/-- The number of the scope that is opened for what is checked. -/
def opens? : Subject → Option Nat
  | expr (.block b) | block _ b => some b.id
  | expr (.control c) | stmt (.control c) => controlScope? c
  | _ => none

/-- What a loop starts with that is checked. -/
def init? : Subject → Option Expr
  | expr (.control c) | stmt (.control c) => c.init?
  | _ => none

/-- A block whose statements are checked as they stand. -/
def inline? : Subject → Option Block
  | inline b => some b
  | _ => none

/-- The code block that is checked. -/
def block? : Subject → Option Block
  | expr (.block b) | block _ b | inline b => some b
  | _ => none

/-- The local that an assignment gives a type where it is bound. -/
def target? : Subject → Option Name
  | stmt (.assignment false target _ _) => if target.isLocal then some target else none
  | _ => none

/-- What stands directly inside, in the order of the source. -/
def parts : Subject → List Node
  | expr e => (Node.expr e).children
  | stmt a => (Node.stmt a).children
  | block _ b | inline b => (Node.block b).children

/-- The subject is the part of a tree at this node. A block may stand there as an expression. -/
inductive IsAt : Subject → Node → Prop
  | expr (e : Expr) : IsAt (.expr e) (.expr e)
  | stmt (a : Stmt) : IsAt (.stmt a) (.stmt a)
  | body (locals : List (String × ValueType)) (b : Block) : IsAt (.block locals b) (.block b)
  | branch (locals : List (String × ValueType)) (b : Block) :
      IsAt (.block locals b) (.expr (.block b))
  | inline (b : Block) : IsAt (.inline b) (.expr (.block b))

/-- What stands inside a subject are the children of the node that it is at. -/
theorem IsAt.parts_eq {a : Subject} {n : Node} (h : a.IsAt n) : a.parts = n.children := by
  cases h <;> rfl

/-- A branch is at the node of its expression, also when it is a block that is checked in a scope of
its own. -/
theorem isAt_ofBranch (e : Expr) : (ofBranch e).IsAt (.expr e) := by
  cases e with
  | block b => exact .branch [] b
  | _ => exact .expr _

/-- The checker checks a branch as the subject that the branch is. -/
theorem thenPart_eq (cx : Context) (here : Nat) (e : Expr) :
    thenPart cx here e = (ofBranch e).check cx here := by
  cases e <;> rfl

/-- One of the nodes is where the subject is. -/
def IsAmong (ns : List Node) (a : Subject) : Prop := ∃ n ∈ ns, a.IsAt n

/-- A measure that grows from what is inside to what it stands in. -/
noncomputable def size : Subject → Nat
  | expr e => sizeOf e
  | stmt a => sizeOf a
  | block _ b | inline b => sizeOf b

/-- A subject is larger than those among its parts. So going inside comes to an end. -/
theorem IsAmong.size_lt {a b : Subject} (h : a.IsAmong b.parts) : a.size < b.size := by
  obtain ⟨n, hn, hat⟩ := h
  have hle : a.size ≤ n.size := by
    cases hat <;> simp [size, Node.size]
  have hlt : n.size < b.size := by
    cases b with
    | expr e => exact Node.size_lt_of_mem_children (m := .expr e) hn
    | stmt a => exact Node.size_lt_of_mem_children (m := .stmt a) hn
    | block locals b => exact Node.size_lt_of_mem_children (m := .block b) hn
    | inline b => exact Node.size_lt_of_mem_children (m := .block b) hn
  exact Nat.lt_of_le_of_lt hle hlt

end Subject

/-- The check of a subject, in the scope at index `here`, that starts in a state. -/
structure Visit where
  here : Nat
  subject : Subject
  state : State

/-- The scope in which the parts of something are checked: a new one if it has a number, else the
one at index `here`. -/
def scopeFor (here : Nat) (s : State) : Option Nat → Nat
  | some _ => s.scopes.all.size
  | none => here

/-- The state in which the check of the parts starts. -/
def stateFor (here : Nat) (s : State) : Option Nat → State
  | some id => { s with scopes := s.scopes.enter id here }
  | none => s

namespace Visit

/-- The scope in which what stands inside is checked. -/
def scope (v : Visit) : Nat := scopeFor v.here v.state v.subject.opens?

/-- The state behind the opening of this scope. -/
def start (v : Visit) : State := stateFor v.here v.state v.subject.opens?

/-- The type that is found. -/
def type (cx : Context) (v : Visit) : ValueType := (v.subject.check cx v.here v.state).1

/-- The state behind the visit. -/
def after (cx : Context) (v : Visit) : State := (v.subject.check cx v.here v.state).2

end Visit

/-! ## Checking with visits -/

/-- The type that a command yields if it is known. -/
def resultIf (cx : Context) (known : Bool) (command : Name) (arity : Arity)
    (operands : List (ValueType × Span)) : Check ValueType :=
  if known then resultType cx command arity operands else return .any

/-- A step of a check that lists the visits it makes. -/
abbrev Visiting (α : Type) : Type := StateT (List Visit) Check α

namespace Visiting

/-- The check of what stands inside. -/
def visit (cx : Context) (here : Nat) (a : Subject) : Visiting ValueType :=
  fun visits s => (((a.check cx here s).1, visits ++ [⟨here, a, s⟩]), (a.check cx here s).2)

section Level

variable (cx : Context) (here : Nat)

def exprs : List Expr → Visiting (List ValueType)
  | [] => return []
  | e :: es => do
    let type ← visit cx here (.expr e)
    let types ← exprs es
    return type :: types

def stmts (last : ValueType) : List Stmt → Visiting ValueType
  | [] => return last
  | a :: as => do
    let type ← visit cx here (.stmt a)
    stmts type as

def block (locals : List (String × ValueType)) (b : Block) : Visiting ValueType := do
  let inside ← openScope here b.id
  (locals.forM fun (name, type) => declare inside name type : Check Unit)
  stmts cx inside .nothing b.statements

def expr? : Option Expr → Visiting (Option ValueType)
  | none => return none
  | some e => do
    let type ← visit cx here (.expr e)
    return some type

def branch? : Option Expr → Visiting (Option ValueType)
  | none => return none
  | some e => do
    let type ← visit cx here (.ofBranch e)
    return some type

def ifCondition (span : Span) : Option Expr → Visiting Unit
  | some e => do
    let type ← visit cx here (.expr e)
    checkType .boolean type e.span
  | none => report (.missingCondition "if") span

def loopCondition (construct : String) (span : Span) : Option Expr → Visiting Unit
  | some e => do
    let type ← visit cx here (.ofBranch e)
    checkType (match e with | .block _ => .boolean | _ => .code) type e.span
  | none => report (.missingCondition construct) span

def bound? : Option Expr → Visiting Unit
  | none => return
  | some e => do
    let type ← visit cx here (.expr e)
    checkType .number type e.span

def body? (locals : List (String × ValueType)) (construct : String) (span : Span) :
    Option Block → Visiting Unit
  | some b => do
    let _ ← visit cx here (.block locals b)
  | none => report (.missingBody construct) span

def init? : Option Expr → Visiting Unit
  | some e => do
    let _ ← visit cx here (.ofInit e)
  | none => return

def control : Control → Visiting ValueType
  | .ifThen condition form branch otherwise span => do
    ifCondition cx here span condition
    let thenType ← visit cx here (.ofBranch branch)
    let otherType ← branch? cx here otherwise
    return ifType form thenType otherType
  | .whileDo condition body span => do
    loopCondition cx here "while" span condition
    body? cx here [] "while" span body
    return .nothing
  | .forDo (.range name first last step) body span => do
    if first.isNone || last.isNone then report (.missingCondition "for") span
    bound? cx here first
    bound? cx here last
    bound? cx here step
    body? cx here [(name.text, .number)] "for" span body
    return .nothing
  | .forDo (.classic init condition step) body span => do
    let loop ← openScope here (classicScopeId init body)
    init? cx loop init
    loopCondition cx loop "for" span condition
    let _ ← expr? cx loop step
    body? cx loop [] "for" span body
    return .nothing
  | .forDo .missing body span => do
    report (.missingCondition "for") span
    body? cx here [] "for" span body
    return .nothing
  | .switchDo subject body span => do
    match subject with
    | some e => do
      let _ ← visit cx here (.expr e)
    | none => report (.missingCondition "switch") span
    body? cx here [] "switch" span body
    return .any
  | .case _ condition b _ => do
    let _ ← expr? cx here condition
    match b with
    | some b => do
      let _ ← visit cx here (.block [] b)
    | none => pure ()
    return .nothing

def expr : Expr → Visiting ValueType
  | .number _ _ => return .number
  | .string _ _ => return .string
  | .name n => nameType cx here n
  | .array elements _ => do
    let types ← exprs cx here elements
    return .ofElements types
  | .block b => do
    let _ ← block cx here [] b
    return .code
  | .unary command operand _ => do
    let known ← commandExists cx command .unary
    declareAll here (declaredNames command operand)
    let type ← visit cx here (.expr operand)
    resultIf cx known command .unary [(type, operand.span)]
  | .binary _ left command right _ => do
    let leftType ← visit cx here (.expr left)
    let known ← commandExists cx command .binary
    let rightType ← visit cx here (.expr right)
    declareAll here (declaredNames command right)
    resultIf cx known command .binary [(leftType, left.span), (rightType, right.span)]
  | .control c => control cx here c
  | .error _ => return .any

def stmt : Stmt → Visiting ValueType
  | .expression e => visit cx here (.expr e)
  | .assignment isPrivate target value _ => do
    let type ← visit cx here (.expr value)
    if isPrivate then declare here target.text type
    else if target.isLocal then assign here target.text type
    return .nothing
  | .control c => control cx here c
  | .error _ => return .any

/-- The check of a subject, with the visits that it makes itself. -/
def level : Subject → Visiting ValueType
  | .expr e => expr cx here e
  | .stmt a => stmt cx here a
  | .block locals b => block cx here locals b
  | .inline b => stmts cx here .nothing b.statements

end Level

end Visiting

/-- The visits that a visit makes itself, in order. -/
def Visit.inside (cx : Context) (v : Visit) : List Visit :=
  (Visiting.level cx v.here v.subject [] v.state).1.2

/-- The visits of the statements of a script, in order. -/
def visits (cx : Context) (p : Program) : List Visit :=
  (Visiting.stmts cx 0 .nothing p.statements [] {}).1.2

/-- The check of a script comes to this visit. -/
inductive Reached (cx : Context) (p : Program) : Visit → Prop
  | statement {v : Visit} (hv : v ∈ visits cx p) : Reached cx p v
  | inside {v w : Visit} (h : Reached cx p v) (hw : w ∈ v.inside cx) : Reached cx p w

end Check

end Sqf
