import Sqf.Proofs.Check.ScopeTree

/-!
# In which scope a block is checked

A check leaves scopes, but not which of them the statements of a block were checked
in. `Noting` is the check with a list beside its state, and wherever it comes to the
statements of a block it notes the block and the index of the scope they are checked
in. Without the notes it is the check (`checkNoting_eq`), and what it notes is read off
the tree: each block has the next scope that is opened.
-/

namespace Sqf

/-! ## What a tree calls for -/

namespace Node

/-- What scopes are opened for below a node, in the order of the walk. -/
def openers (n : Node) : List Opener := n.walk.filterMap opener?

/-- The scopes that are opened below some nodes are those below each, one after the other. -/
theorem openers_flatMap (ns : List Node) :
    (ns.flatMap walk).filterMap opener? = ns.flatMap openers :=
  List.filterMap_flatMap

/-- A node that opens a scope opens it before those inside. -/
theorem openers_some {n : Node} {o : Opener} {inside : List Node}
    (h : n.scope? = some (o, inside)) : n.openers = o :: inside.flatMap openers := by
  rw [openers, openers_of_some h, openers_flatMap]

/-- A node that opens none has those of its children. -/
theorem openers_none {n : Node} (h : n.scope? = none) :
    n.openers = n.children.flatMap openers := by
  rw [openers, openers_of_none h, openers_flatMap]

theorem openers_stmt_expression (e : Expr) :
    openers (.stmt (.expression e)) = openers (.expr e) := by
  rw [openers_none (n := .stmt (.expression e)) rfl]
  simp [children]

/-- An assignment opens what its value opens. -/
theorem openers_assignment (isPrivate : Bool) (target : Name) (value : Expr) (span : Span) :
    openers (.stmt (.assignment isPrivate target value span)) = openers (.expr value) := by
  rw [openers_none (n := .stmt (.assignment isPrivate target value span)) rfl]
  simp [children]

/-- A block that is an expression opens the scope of the block. -/
theorem openers_block (b : Block) : openers (.expr (.block b)) = openers (.block b) := by
  rw [openers_some (n := .expr (.block b)) rfl, openers_some (n := .block b) rfl]

theorem openers_some_block (b : Block) :
    ((some (Expr.block b)).toList.map Node.expr).flatMap openers = openers (.block b) := by
  simp [openers_block]

/-- It makes no difference whether a construct is a statement or an expression. -/
theorem openers_control (c : Control) :
    openers (.stmt (.control c)) = openers (.expr (.control c)) := by
  cases h : c.scope? with
  | none =>
    rw [openers_none (n := .stmt (.control c)) h, openers_none (n := .expr (.control c)) h]
    rfl
  | some scope =>
    rw [openers_some (n := .stmt (.control c)) h, openers_some (n := .expr (.control c)) h]

end Node

/-- The blocks among what scopes are opened for, each with the index of its scope. Scopes are
numbered from `next` on. -/
def placed : Nat → List Opener → List (Block × Nat)
  | _, [] => []
  | next, .block b :: os => (b, next) :: placed (next + 1) os
  | next, .loop _ :: os => placed (next + 1) os

@[simp] theorem placed_nil (next : Nat) : placed next [] = [] := rfl

/-- Scopes that are opened later have the indices behind those of the earlier ones. -/
theorem placed_append (next : Nat) (os others : List Opener) :
    placed next (os ++ others) = placed next os ++ placed (next + os.length) others := by
  induction os generalizing next with
  | nil => rfl
  | cons o os ih =>
    have hlength : next + (o :: os).length = next + 1 + os.length := by
      rw [List.length_cons]
      omega
    cases o with
    | block b => rw [List.cons_append, placed, placed, ih, hlength, List.cons_append]
    | loop body => rw [List.cons_append, placed, placed, ih, hlength]

/-! ## Checking with notes -/

/-- A step of a check that notes which block is checked in which scope. -/
abbrev Noting (α : Type) : Type := StateT (List (Block × Nat)) Check α

namespace Noting

open Check (Context report checkType openScope declare declareAll declaredNames assign nameType
  commandExists resultType classicScopeId ifType)

/-- Keeps that the statements of a block are checked in the scope at index `here`. -/
def note (b : Block) (here : Nat) : Noting Unit := modify fun notes => notes ++ [(b, here)]

mutual

def expr (cx : Context) (here : Nat) : Expr → Noting ValueType
  | .number _ _ => return .number
  | .string _ _ => return .string
  | .name n => nameType cx here n
  | .array elements _ => do
    let types ← exprs cx here elements
    return .ofElements types
  | .block b => do
    let _ ← block cx here [] b
    return .code
  | .unary command operand _ => do
    let known ← commandExists cx command .unary
    declareAll here (declaredNames command operand)
    let type ← expr cx here operand
    if known then resultType cx command .unary [(type, operand.span)] else return .any
  | .binary _ left command right _ => do
    let leftType ← expr cx here left
    let known ← commandExists cx command .binary
    let rightType ← expr cx here right
    declareAll here (declaredNames command right)
    if known then
      resultType cx command .binary [(leftType, left.span), (rightType, right.span)]
    else return .any
  | .control c => control cx here c
  | .error _ => return .any

def exprs (cx : Context) (here : Nat) : List Expr → Noting (List ValueType)
  | [] => return []
  | e :: es => do
    let type ← expr cx here e
    let types ← exprs cx here es
    return type :: types

def stmt (cx : Context) (here : Nat) : Stmt → Noting ValueType
  | .expression e => expr cx here e
  | .assignment isPrivate target value _ => do
    let type ← expr cx here value
    if isPrivate then declare here target.text type
    else if target.isLocal then assign here target.text type
    return .nothing
  | .control c => control cx here c
  | .error _ => return .any

def stmts (cx : Context) (here : Nat) (last : ValueType) : List Stmt → Noting ValueType
  | [] => return last
  | s :: ss => do
    let type ← stmt cx here s
    stmts cx here type ss

/-- A block is checked in a scope of its own. -/
def block (cx : Context) (here : Nat) (locals : List (String × ValueType)) :
    Block → Noting ValueType
  | ⟨id, statements, span⟩ => do
    let inside ← openScope here id
    (locals.forM fun (name, type) => declare inside name type : Check Unit)
    note ⟨id, statements, span⟩ inside
    stmts cx inside .nothing statements

def expr? (cx : Context) (here : Nat) : Option Expr → Noting (Option ValueType)
  | none => return none
  | some e => do
    let type ← expr cx here e
    return some type

def branch? (cx : Context) (here : Nat) : Option Expr → Noting (Option ValueType)
  | none => return none
  | some (.block b) => do
    let type ← block cx here [] b
    return some type
  | some e => do
    let type ← expr cx here e
    return some type

def ifCondition (cx : Context) (here : Nat) (span : Span) : Option Expr → Noting Unit
  | some e => do
    let type ← expr cx here e
    checkType .boolean type e.span
  | none => report (.missingCondition "if") span

def loopCondition (cx : Context) (here : Nat) (construct : String) (span : Span) :
    Option Expr → Noting Unit
  | some (.block b) => do
    let type ← block cx here [] b
    checkType .boolean type b.span
  | some e => do
    let type ← expr cx here e
    checkType .code type e.span
  | none => report (.missingCondition construct) span

def bound? (cx : Context) (here : Nat) : Option Expr → Noting Unit
  | none => return
  | some e => do
    let type ← expr cx here e
    checkType .number type e.span

def body? (cx : Context) (here : Nat) (locals : List (String × ValueType)) (construct : String)
    (span : Span) : Option Block → Noting Unit
  | some b => do
    let _ ← block cx here locals b
  | none => report (.missingBody construct) span

/-- The first part of a loop header. A block that stands there is checked in the scope of the
loop. -/
def init? (cx : Context) (here : Nat) : Option Expr → Noting Unit
  | some (.block ⟨id, statements, span⟩) => do
    note ⟨id, statements, span⟩ here
    let _ ← stmts cx here .nothing statements
  | some e => do
    let _ ← expr cx here e
  | none => return

def control (cx : Context) (here : Nat) : Control → Noting ValueType
  | .ifThen condition form thenPart otherwise span => do
    ifCondition cx here span condition
    let thenType ← (match thenPart with
      | .block b => block cx here [] b
      | e => expr cx here e)
    let otherType ← branch? cx here otherwise
    return ifType form thenType otherType
  | .whileDo condition body span => do
    loopCondition cx here "while" span condition
    body? cx here [] "while" span body
    return .nothing
  | .forDo (.range name first last step) body span => do
    if first.isNone || last.isNone then report (.missingCondition "for") span
    bound? cx here first
    bound? cx here last
    bound? cx here step
    body? cx here [(name.text, .number)] "for" span body
    return .nothing
  | .forDo (.classic init condition step) body span => do
    let loop ← openScope here (classicScopeId init body)
    init? cx loop init
    loopCondition cx loop "for" span condition
    let _ ← expr? cx loop step
    body? cx loop [] "for" span body
    return .nothing
  | .forDo .missing body span => do
    report (.missingCondition "for") span
    body? cx here [] "for" span body
    return .nothing
  | .switchDo subject body span => do
    match subject with
    | some e => do
      let _ ← expr cx here e
    | none => report (.missingCondition "switch") span
    body? cx here [] "switch" span body
    return .any
  | .case _ condition b _ => do
    let _ ← expr? cx here condition
    match b with
    | some b => do
      let _ ← block cx here [] b
    | none => pure ()
    return .nothing

end

/-- The branch of an `if` that is always there. -/
def thenPart (cx : Context) (here : Nat) : Expr → Noting ValueType
  | .block b => block cx here [] b
  | e => expr cx here e

/-- An `if` as its parts: the condition, then both branches. -/
theorem control_ifThen (cx : Context) (here : Nat) (condition : Option Expr) (form : IfForm)
    (branch : Expr) (otherwise : Option Expr) (span : Span) :
    control cx here (.ifThen condition form branch otherwise span) = (do
      ifCondition cx here span condition
      let thenType ← thenPart cx here branch
      let otherType ← branch? cx here otherwise
      return ifType form thenType otherType) := by
  cases branch <;> rfl

/-! ## What is noted -/

open Node (openers openers_some openers_none openers_stmt_expression openers_assignment
  openers_block openers_some_block openers_control)

/-- A part of the check with notes does what the part without them does. It opens a number of
scopes, and its notes follow from the index of the first of these. -/
def Notes (x : Noting α) (c : Check α) (opened : Nat) (notes : Nat → List (Block × Nat)) : Prop :=
  ∀ before s, x before s = (((c s).1, before ++ notes s.scopes.all.size), (c s).2) ∧
    (c s).2.scopes.all.size = s.scopes.all.size + opened

/-- A part of the check that opens these scopes, and notes the blocks among them. -/
def Places (x : Noting α) (c : Check α) (os : List Opener) : Prop :=
  Notes x c os.length fun next => placed next os

section Rules

/-- A note is taken of one block, and no scope is opened. -/
theorem Notes.note (b : Block) (here : Nat) :
    Notes (note b here) (Pure.pure ()) 0 fun _ => [(b, here)] :=
  fun _ _ => ⟨rfl, rfl⟩

/-- A second check notes what it notes alone, with the indices behind those of the scopes that the
first one has opened. -/
theorem Notes.bind {x : Noting α} {c : Check α} {f : α → Noting β} {k : α → Check β}
    {opened more : Nat} {notes others : Nat → List (Block × Nat)} (h : Notes x c opened notes)
    (hk : ∀ a, Notes (f a) (k a) more others) :
    Notes (x >>= f) (c >>= k) (opened + more)
      fun next => notes next ++ others (next + opened) := by
  intro before s
  obtain ⟨hrun, hsize⟩ := h before s
  obtain ⟨hrun', hsize'⟩ :=
    hk (c s).1 (before ++ notes s.scopes.all.size) (c s).2
  constructor
  · show f (x before s).1.1 (x before s).1.2 (x before s).2 = _
    rw [hrun, hrun', hsize, List.append_assoc]
    rfl
  · show ((k (c s).1) (c s).2).2.scopes.all.size = _
    rw [hsize', hsize]
    omega

/-- A scope is opened at the next index. -/
theorem Notes.openScope {x : Nat → Noting α} {c : Nat → Check α} {opened : Nat}
    {notes : Nat → Nat → List (Block × Nat)} (here id : Nat)
    (h : ∀ inside, Notes (x inside) (c inside) opened (notes inside)) :
    Notes (do x (← openScope here id)) (do c (← openScope here id)) (opened + 1)
      fun next => notes next (next + 1) := by
  intro before s
  obtain ⟨hrun, hsize⟩ := h s.scopes.all.size before { s with scopes := s.scopes.enter id here }
  have hgrown : (s.scopes.enter id here).all.size = s.scopes.all.size + 1 := by
    simp [Scopes.enter]
  constructor
  · show x s.scopes.all.size before { s with scopes := s.scopes.enter id here } = _
    rw [hrun, hgrown]
    rfl
  · show (c s.scopes.all.size { s with scopes := s.scopes.enter id here }).2.scopes.all.size = _
    rw [hsize, hgrown]
    omega

/-- Where nothing is checked nothing is noted. -/
theorem Places.pure (a : α) : Places (Pure.pure a) (Pure.pure a) [] :=
  fun before _ => ⟨congrArg (fun notes => ((a, notes), _)) (List.append_nil before).symm, rfl⟩

/-- A part that opens no scope notes nothing. -/
theorem Places.lift (here : Nat) {c : Check α} (h : Check.Goes here c []) :
    Places (liftM c) c [] := by
  intro before s
  have hframe : s.scopes.frame = (c s).2.scopes.frame := congrArg Trail.opened (h s [])
  constructor
  · simp only [placed_nil, List.append_nil]
    rfl
  · rw [← Scopes.length_frame, ← Scopes.length_frame, hframe]
    rfl

/-- The statements of a block are checked where the note says. -/
theorem Places.afterNote {x : Noting α} {c : Check α} {os : List Opener} (h : Places x c os)
    (b : Block) (here : Nat) :
    Notes (do note b here; x) c os.length fun next => (b, here) :: placed next os := by
  have hboth := Notes.bind (Notes.note b here) fun _ => h
  rw [Nat.zero_add] at hboth
  exact hboth

/-- Checks one after the other open the scopes of both. -/
theorem Places.bind {x : Noting α} {c : Check α} {f : α → Noting β} {k : α → Check β}
    {os others : List Opener} (h : Places x c os) (hk : ∀ a, Places (f a) (k a) others) :
    Places (x >>= f) (c >>= k) (os ++ others) := by
  have hboth := Notes.bind h hk
  simp only [← placed_append, ← List.length_append] at hboth
  exact hboth

/-- A part with nothing behind it that opens a scope. -/
theorem Places.bind_still {x : Noting α} {c : Check α} {f : α → Noting β} {k : α → Check β}
    {os : List Opener} (h : Places x c os) (hk : ∀ a, Places (f a) (k a) []) :
    Places (x >>= f) (c >>= k) os := by
  have := h.bind hk
  rwa [List.append_nil] at this

/-- The type of a call is found without opening a scope. -/
theorem Places.resultIf (here : Nat) (cx : Context) (isKnown : Bool) (command : Name)
    (arity : Arity) (operands : List (ValueType × Span)) :
    Places (if isKnown then (resultType cx command arity operands : Noting ValueType)
        else return .any)
      (if isKnown then Check.resultType cx command arity operands else return .any) [] := by
  split
  · exact Places.lift here (Check.Goes.resultType cx command arity operands)
  · exact Places.pure _

/-- A block that is checked in a scope opened for it is noted with this scope. -/
theorem Places.openBlock {x : Nat → Noting α} {c : Nat → Check α} {os : List Opener}
    (here : Nat) (b : Block)
    (h : ∀ inside, Notes (x inside) (c inside) os.length
      fun next => (b, inside) :: placed next os) :
    Places (do x (← openScope here b.id)) (do c (← openScope here b.id)) (.block b :: os) :=
  Notes.openScope here b.id h

end Rules

/-! ## All of the check -/

open Check (Goes)

variable (cx : Context)

mutual

/-- The blocks of an expression are in the scopes that the walk of it opens. The induction is on the
tree, and the scopes of a node are those of its parts in the order in which they are checked. -/
theorem expr_places (here : Nat) (e : Expr) :
    Places (expr cx here e) (Check.expr cx here e) (openers (.expr e)) := by
  cases e with
  | number value span => rw [openers_none rfl]; exact Places.pure _
  | string value span => rw [openers_none rfl]; exact Places.pure _
  | name n => rw [openers_none rfl]; exact Places.lift here (Goes.nameType cx n)
  | array elements span =>
    rw [openers_none rfl]
    exact (exprs_place here elements).bind_still fun _ => Places.pure _
  | block b => rw [openers_block]; exact (block_places here [] b).bind_still fun _ => Places.pure _
  | unary command operand span =>
    rw [openers_none rfl]
    exact (Places.lift here (Goes.commandExists cx command .unary)).bind fun isKnown =>
      (Places.lift here (Goes.declareAll (declaredNames command operand))).bind fun _ =>
        (expr_places here operand).bind fun _ =>
          Places.resultIf here cx isKnown command .unary _
  | binary joint left command right span =>
    rw [openers_none rfl]
    exact (expr_places here left).bind fun _ =>
      (Places.lift here (Goes.commandExists cx command .binary)).bind fun isKnown =>
        (expr_places here right).bind fun _ =>
          (Places.lift here (Goes.declareAll (declaredNames command right))).bind fun _ =>
            Places.resultIf here cx isKnown command .binary _
  | control c => rw [← openers_control]; exact control_places here c
  | error span => rw [openers_none rfl]; exact Places.pure _

/-- Elements are checked from left to right. -/
theorem exprs_place (here : Nat) (es : List Expr) :
    Places (exprs cx here es) (Check.exprs cx here es) ((es.map .expr).flatMap openers) := by
  cases es with
  | nil => exact Places.pure _
  | cons e es =>
    exact (expr_places here e).bind fun _ =>
      (exprs_place here es).bind_still fun _ => Places.pure _

/-- A part that is missing opens nothing. -/
theorem expr?_places (here : Nat) (e : Option Expr) :
    Places (expr? cx here e) (Check.expr? cx here e) ((e.toList.map .expr).flatMap openers) := by
  cases e with
  | none => exact Places.pure _
  | some e => exact (expr_places here e).bind fun _ => Places.pure _

/-- A branch opens a scope if it is a block. -/
theorem branch?_places (here : Nat) (e : Option Expr) :
    Places (branch? cx here e) (Check.branch? cx here e)
      ((e.toList.map .expr).flatMap openers) := by
  cases e with
  | none => exact Places.pure _
  | some e =>
    cases e with
    | block b =>
      rw [openers_some_block]
      exact (block_places here [] b).bind_still fun _ => Places.pure _
    | _ => exact (expr_places here _).bind fun _ => Places.pure _

/-- A condition of a loop opens a scope if it is a block, as it has to be. -/
theorem loopCondition_places (here : Nat) (construct : String) (span : Span) (e : Option Expr) :
    Places (loopCondition cx here construct span e) (Check.loopCondition cx here construct span e)
      ((e.toList.map .expr).flatMap openers) := by
  cases e with
  | none => exact Places.lift here (Goes.report _ _)
  | some e =>
    cases e with
    | block b =>
      rw [openers_some_block]
      exact (block_places here [] b).bind_still fun _ =>
        Places.lift here (Goes.checkType _ _ _)
    | _ =>
      exact (expr_places here _).bind fun _ => Places.lift here (Goes.checkType _ _ _)

/-- A bound is an expression like others. -/
theorem bound?_places (here : Nat) (e : Option Expr) :
    Places (bound? cx here e) (Check.bound? cx here e)
      ((e.toList.map .expr).flatMap openers) := by
  cases e with
  | none => exact Places.pure _
  | some e =>
    exact (expr_places here e).bind fun _ => Places.lift here (Goes.checkType _ _ _)

/-- A block is checked in the scope that it opens, and its statements open theirs behind it. -/
theorem block_places (here : Nat) (locals : List (String × ValueType)) (b : Block) :
    Places (block cx here locals b) (Check.block cx here locals b) (openers (.block b)) := by
  cases b with
  | mk id statements span =>
    rw [openers_some rfl]
    refine Places.openBlock here ⟨id, statements, span⟩ fun inside => ?_
    -- The locals open no scope, so the note is the first.
    have hall := Notes.bind (Places.lift inside (Goes.declareLocals locals)) fun _ =>
      (stmts_place inside .nothing statements).afterNote ⟨id, statements, span⟩ inside
    rw [List.length_nil, Nat.zero_add] at hall
    exact hall

/-- A body that is missing is reported, and opens nothing. -/
theorem body?_places (here : Nat) (locals : List (String × ValueType)) (construct : String)
    (span : Span) (b : Option Block) :
    Places (body? cx here locals construct span b) (Check.body? cx here locals construct span b)
      ((b.toList.map .block).flatMap openers) := by
  cases b with
  | none => exact Places.lift here (Goes.report _ _)
  | some b => exact (block_places here locals b).bind fun _ => Places.pure _

/-- An assignment opens the scopes of its value and then binds the name. -/
theorem stmt_places (here : Nat) (a : Stmt) :
    Places (stmt cx here a) (Check.stmt cx here a) (openers (.stmt a)) := by
  cases a with
  | expression e => rw [openers_stmt_expression]; exact expr_places here e
  | assignment isPrivate target value span =>
    rw [openers_assignment, stmt, Check.stmt]
    refine (expr_places here value).bind_still fun type => ?_
    split
    · exact (Places.lift here (Goes.declare here target.text type)).bind fun _ =>
        Places.pure _
    · split
      · exact (Places.lift here (Goes.assign target.text type)).bind fun _ =>
          Places.pure _
      · exact Places.pure _
  | control c => exact control_places here c
  | error span => rw [openers_none rfl]; exact Places.pure _

/-- Statements open their scopes one after the other. -/
theorem stmts_place (here : Nat) (last : ValueType) (ss : List Stmt) :
    Places (stmts cx here last ss) (Check.stmts cx here last ss)
      ((ss.map .stmt).flatMap openers) := by
  cases ss with
  | nil => exact Places.pure _
  | cons a ss => exact (stmt_places here a).bind fun type => stmts_place here type ss

/-- The constructs open the scopes of their parts, and a loop with a header of three parts may open
one of its own before these. -/
theorem control_places (here : Nat) (c : Control) :
    Places (control cx here c) (Check.control cx here c) (openers (.stmt (.control c))) := by
  cases c with
  | ifThen condition form branch otherwise span =>
    have hbranch : Places (thenPart cx here branch) (Check.thenPart cx here branch)
        (openers (.expr branch)) := by
      cases branch with
      | block b => rw [openers_block]; exact block_places here [] b
      | _ => exact expr_places here _
    have hparts := hbranch.bind fun thenType =>
      (branch?_places here otherwise).bind_still fun otherType =>
        Places.pure (ifType form thenType otherType)
    rw [openers_none rfl, control_ifThen, Check.control_ifThen]
    simp only [Node.children, Control.children, List.flatMap_append, List.flatMap_cons]
    cases condition with
    | none => exact (Places.lift here (Goes.report _ _)).bind fun _ => hparts
    | some e =>
      have hcondition : Places (ifCondition cx here span (some e)) (do
          let type ← Check.expr cx here e
          checkType .boolean type e.span) (openers (.expr e)) :=
        (expr_places here e).bind_still fun _ => Places.lift here (Goes.checkType _ _ _)
      simp only [Option.toList_some, List.map_cons, List.map_nil, List.flatMap_cons,
        List.flatMap_nil, List.append_nil]
      exact hcondition.bind fun _ => hparts
  | whileDo condition body span =>
    rw [openers_none rfl]
    simp only [Node.children, Control.children, List.flatMap_append]
    exact (loopCondition_places here "while" span condition).bind fun _ =>
      (body?_places here [] "while" span body).bind_still fun _ => Places.pure _
  | forDo header body span =>
    cases header with
    | range name first last step =>
      have hloop := (bound?_places here first).bind fun _ =>
        (bound?_places here last).bind fun _ =>
          (bound?_places here step).bind fun _ =>
            (body?_places here [(name.text, .number)] "for" span body).bind_still fun _ =>
              Places.pure (α := ValueType) .nothing
      rw [openers_none rfl]
      simp only [Node.children, Control.children, ForHeader.parts, List.map_append,
        List.flatMap_append, List.append_assoc]
      rw [control, Check.control]
      split
      · exact (Places.lift here (Goes.report _ _)).bind fun _ => hloop
      · exact hloop
    | classic init condition step =>
      -- Whatever the first part is, the others stand in the same scope.
      have hothers (loop : Nat) := (loopCondition_places loop "for" span condition).bind fun _ =>
        (expr?_places loop step).bind fun _ =>
          (body?_places loop [] "for" span body).bind_still fun _ =>
            Places.pure (α := ValueType) .nothing
      have hplain (hscope : (Control.forDo (.classic init condition step) body span).scope? =
            some (.loop body, (init.toList ++ condition.toList ++ step.toList).map .expr ++
              body.toList.map .block))
          (hid : classicScopeId init body = (Opener.loop body).id)
          (hfirst : ∀ loop, Places (init? cx loop init) (Check.init? cx loop init)
            ((init.toList.map .expr).flatMap openers)) :
          Places (control cx here (.forDo (.classic init condition step) body span))
            (Check.control cx here (.forDo (.classic init condition step) body span))
            (openers (.stmt (.control (.forDo (.classic init condition step) body span)))) := by
        rw [openers_some (n := .stmt (.control (.forDo (.classic init condition step) body span)))
          hscope, control, Check.control, hid]
        simp only [List.map_append, List.flatMap_append, List.append_assoc]
        exact Notes.openScope here _ fun loop => (hfirst loop).bind fun _ => hothers loop
      cases init with
      | none => exact hplain rfl (by cases body <;> rfl) fun loop => Places.pure _
      | some e =>
        cases e with
        | block b =>
          rcases b with ⟨id, statements, blockSpan⟩
          rw [openers_some rfl, control, Check.control]
          simp only [List.map_append, List.flatMap_append, List.append_assoc]
          refine Places.openBlock here ⟨id, statements, blockSpan⟩ fun loop => ?_
          have hstmts := (stmts_place loop .nothing statements).bind_still fun _ => Places.pure ()
          have hall := Notes.bind (hstmts.afterNote ⟨id, statements, blockSpan⟩ loop) fun _ =>
            hothers loop
          simp only [List.cons_append, ← placed_append, ← List.length_append] at hall
          rw [init?, Check.init?]
          exact hall
        | _ =>
          exact hplain rfl (by cases body <;> rfl) fun loop =>
            (expr_places loop _).bind fun _ => Places.pure _
    | missing =>
      rw [openers_none rfl]
      exact (Places.lift here (Goes.report _ _)).bind fun _ =>
        (body?_places here [] "for" span body).bind_still fun _ => Places.pure _
  | switchDo subject body span =>
    have hbody := (body?_places here [] "switch" span body).bind_still fun _ =>
      Places.pure (α := ValueType) .any
    rw [openers_none rfl]
    simp only [Node.children, Control.children, List.flatMap_append]
    cases subject with
    | none => exact (Places.lift here (Goes.report _ _)).bind fun _ => hbody
    | some e =>
      simp only [Option.toList_some, List.map_cons, List.map_nil, List.flatMap_cons,
        List.flatMap_nil, List.append_nil]
      exact (expr_places here e).bind fun _ => hbody
  | case isDefault condition b span =>
    rw [openers_none rfl]
    simp only [Node.children, Control.children, List.flatMap_append]
    unfold control Check.control
    refine (expr?_places here condition).bind fun _ => ?_
    cases b with
    | none => exact Places.pure _
    | some b => exact (block_places here [] b).bind fun _ => Places.pure _

end

end Noting

/-- Checks a script and notes in which scope each block is checked. -/
def checkNoting (table : Table) (settings : Settings) (p : Program) :
    Checked × List (Block × Nat) :=
  let ((_, notes), s) := ((Noting.stmts ⟨table, settings⟩ 0 .nothing p.statements).run []).run {}
  (⟨s.diagnostics.toList, s.scopes⟩, notes)

/-- With notes the check finds what it finds without, and the blocks of the tree have been noted
with the scopes that the walk opens for them, behind the one of the script. -/
theorem checkNoting_eq (table : Table) (settings : Settings) (p : Program) :
    checkNoting table settings p =
      (check table settings p, placed 1 (Node.program p).openers) := by
  have hopeners : (Node.program p).openers = (p.statements.map .stmt).flatMap Node.openers :=
    Node.openers_none rfl
  obtain ⟨hrun, -⟩ := Noting.stmts_place ⟨table, settings⟩ 0 .nothing p.statements [] {}
  rw [hopeners]
  show (let ((_, notes), s) := Noting.stmts ⟨table, settings⟩ 0 .nothing p.statements [] {}
    ((⟨s.diagnostics.toList, s.scopes⟩ : Checked), notes)) = _
  rw [hrun]
  rfl

end Sqf
