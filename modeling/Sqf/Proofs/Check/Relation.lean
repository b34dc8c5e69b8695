import Sqf.Proofs.Check.Steps
import Sqf.Proofs.Tree.Marked

/-!
# Two checks of one tree

A check is made of a few steps: it reports, opens scopes, binds locals, and looks up names
in its table. A `Relation` between checks is kept when steps are put together, so if it
holds of the steps for the spans and leaves of a tree, it holds of the whole check of the
tree. The two checks may have different tables and settings.
-/

namespace Sqf

/-- Whether the cause is a fault of a construct: that it lacks a part, or that a part has the wrong
type. -/
def Cause.isOfConstruct : Cause → Bool
  | missingCondition _ | missingBody _ | typeMismatch _ _ => true
  | _ => false

namespace Check

/-- A relation between the steps of two checks, for spans and leaves of trees with certain
properties. -/
structure Relation (cx cx' : Context) where
  rel : ∀ {α : Type}, Check α → Check α → Prop
  span : Span → Prop
  leaf : Leaf → Prop
  pure : ∀ {α : Type} (a : α), rel (pure a) (pure a)
  bind : ∀ {α β : Type} {c c' : Check α} {k k' : α → Check β}, rel c c' →
    (∀ a, rel (k a) (k' a)) → rel (c >>= k) (c' >>= k')
  report : ∀ {sp : Span} {cause : Cause}, cause.isOfConstruct = true → span sp →
    rel (report cause sp) (report cause sp)
  openScope : ∀ here id, rel (openScope here id) (openScope here id)
  declare : ∀ here name type, rel (declare here name type) (declare here name type)
  assign : ∀ here name type, rel (assign here name type) (assign here name type)
  nameType : ∀ here {n : Name}, leaf (.name n) → rel (nameType cx here n) (nameType cx' here n)
  commandExists : ∀ {command : Name} arity, leaf (.command command) →
    rel (commandExists cx command arity) (commandExists cx' command arity)
  resultType : ∀ {command : Name} {operands : List (ValueType × Span)} arity,
    leaf (.command command) → (∀ o ∈ operands, span o.2) →
    rel (resultType cx command arity operands) (resultType cx' command arity operands)

/-- Two checks are equal if names and commands that they come upon are looked up alike. -/
def Relation.equal {cx cx' : Context} (leaf : Leaf → Prop)
    (hname : ∀ here {n : Name}, leaf (.name n) →
      Check.nameType cx here n = Check.nameType cx' here n)
    (hcommand : ∀ {command : Name} arity, leaf (.command command) →
      Check.commandExists cx command arity = Check.commandExists cx' command arity)
    (hresult : ∀ {command : Name} (operands : List (ValueType × Span)) arity,
      leaf (.command command) →
      Check.resultType cx command arity operands = Check.resultType cx' command arity operands) :
    Relation cx cx' where
  rel c c' := c = c'
  span _ := True
  leaf := leaf
  pure _ := rfl
  bind h hk := by rw [h, funext hk]
  report _ _ := rfl
  openScope _ _ := rfl
  declare _ _ _ := rfl
  assign _ _ _ := rfl
  nameType := hname
  commandExists := hcommand
  resultType arity h _ := hresult _ arity h

namespace Relation

variable {cx cx' : Context} (R : Relation cx cx') {here : Nat}

/-- Locals that are declared one after the other keep what is kept by declaring one. -/
theorem declareAll (names : List String) :
    R.rel (Check.declareAll here names) (Check.declareAll here names) := by
  induction names with
  | nil => exact R.pure ()
  | cons name names ih => exact R.bind (R.declare here name .any) fun _ => ih

/-- So do locals that are declared with types of their own. -/
theorem declareLocals (locals : List (String × ValueType)) :
    R.rel (locals.forM fun (name, type) => Check.declare here name type)
      (locals.forM fun (name, type) => Check.declare here name type) := by
  induction locals with
  | nil => exact R.pure ()
  | cons entry locals ih => exact R.bind (R.declare here entry.1 entry.2) fun _ => ih

/-- A type that does not fit is reported at the span, and nothing is done otherwise. -/
theorem checkType (expected received : ValueType) {sp : Span} (h : R.span sp) :
    R.rel (Check.checkType expected received sp) (Check.checkType expected received sp) := by
  unfold Check.checkType
  split
  · exact R.report rfl h
  · exact R.pure _

/-- What a command yields if it is known. -/
theorem resultIf (isKnown : Bool) {command : Name} (arity : Arity)
    {operands : List (ValueType × Span)} (hcommand : R.leaf (.command command))
    (hoperands : ∀ o ∈ operands, R.span o.2) :
    R.rel (if isKnown then Check.resultType cx command arity operands else return .any)
      (if isKnown then Check.resultType cx' command arity operands else return .any) := by
  split
  · exact R.resultType arity hcommand hoperands
  · exact R.pure _

/-- The relation is to hold of the check of this node. -/
abbrev Holds (n : Node) : Prop := n.Marked R.span R.leaf

end Relation

variable {cx cx' : Context} (R : Relation cx cx')

mutual

/-- The checks of an expression are related if the tree below it has only spans and leaves of which
the relation holds. The induction is on the tree; each construct puts together its parts as the
checker does. -/
theorem expr_related (here : Nat) (e : Expr) (h : R.Holds (.expr e)) :
    R.rel (expr cx here e) (expr cx' here e) := by
  cases e with
  | number value span => exact R.pure _
  | string value span => exact R.pure _
  | name n => exact R.nameType here (h.ownLeaves _ (List.mem_singleton_self _))
  | array elements span =>
    exact R.bind (exprs_related here elements fun e he => h.child (List.mem_map_of_mem he))
      fun _ => R.pure _
  | block b =>
    exact R.bind (block_related here [] b fun a ha => h.child (List.mem_map_of_mem ha))
      fun _ => R.pure _
  | unary command operand span =>
    have hcommand := h.ownLeaves (.command command) (List.mem_singleton_self _)
    have hoperand : R.Holds (.expr operand) := h.child (by simp [Node.children])
    refine R.bind (R.commandExists .unary hcommand) fun isKnown => ?_
    refine R.bind (R.declareAll _) fun _ => ?_
    refine R.bind (expr_related here operand hoperand) fun type => ?_
    exact R.resultIf isKnown .unary hcommand (List.forall_mem_singleton.2 hoperand.spanSelf)
  | binary joint left command right span =>
    have hcommand := h.ownLeaves (.command command) (List.mem_singleton_self _)
    have hleft : R.Holds (.expr left) := h.child (by simp [Node.children])
    have hright : R.Holds (.expr right) := h.child (by simp [Node.children])
    refine R.bind (expr_related here left hleft) fun leftType => ?_
    refine R.bind (R.commandExists .binary hcommand) fun isKnown => ?_
    refine R.bind (expr_related here right hright) fun rightType => ?_
    refine R.bind (R.declareAll _) fun _ => R.resultIf isKnown .binary hcommand ?_
    exact List.forall_mem_cons.2 ⟨hleft.spanSelf, List.forall_mem_singleton.2 hright.spanSelf⟩
  | control c => exact control_related here c h.spanSelf fun m hm => h.child hm
  | error span => exact R.pure _

/-- Elements are checked from left to right. -/
theorem exprs_related (here : Nat) (es : List Expr) (h : ∀ e ∈ es, R.Holds (.expr e)) :
    R.rel (exprs cx here es) (exprs cx' here es) := by
  cases es with
  | nil => exact R.pure _
  | cons e es =>
    obtain ⟨he, hes⟩ := List.forall_mem_cons.1 h
    exact R.bind (expr_related here e he) fun _ => R.bind (exprs_related here es hes) fun _ =>
      R.pure _

/-- An assignment checks its value before it binds the name. -/
theorem stmt_related (here : Nat) (a : Stmt) (h : R.Holds (.stmt a)) :
    R.rel (stmt cx here a) (stmt cx' here a) := by
  cases a with
  | expression e => exact expr_related here e (h.child (by simp [Node.children]))
  | assignment isPrivate target value span =>
    refine R.bind (expr_related here value (h.child (by simp [Node.children]))) fun type => ?_
    split
    · exact R.bind (R.declare here target.text type) fun _ => R.pure _
    · split
      · exact R.bind (R.assign here target.text type) fun _ => R.pure _
      · exact R.pure _
  | control c => exact control_related here c h.spanSelf fun m hm => h.child hm
  | error span => exact R.pure _

/-- Statements hand on the type of the last one. -/
theorem stmts_related (here : Nat) (last : ValueType) (ss : List Stmt)
    (h : ∀ a ∈ ss, R.Holds (.stmt a)) : R.rel (stmts cx here last ss) (stmts cx' here last ss) := by
  cases ss with
  | nil => exact R.pure _
  | cons a ss =>
    obtain ⟨ha, hss⟩ := List.forall_mem_cons.1 h
    exact R.bind (stmt_related here a ha) fun type => stmts_related here type ss hss

/-- A block opens a scope, declares what it is given, and checks its statements in there. -/
theorem block_related (here : Nat) (locals : List (String × ValueType)) (b : Block)
    (h : ∀ a ∈ b.statements, R.Holds (.stmt a)) :
    R.rel (block cx here locals b) (block cx' here locals b) := by
  cases b with
  | mk id statements span =>
    exact R.bind (R.openScope here id) fun inside => R.bind (R.declareLocals locals) fun _ =>
      stmts_related inside .nothing statements h

/-- A part that is missing is not checked. -/
theorem expr?_related (here : Nat) (e : Option Expr) (h : ∀ x ∈ e, R.Holds (.expr x)) :
    R.rel (expr? cx here e) (expr? cx' here e) := by
  cases e with
  | none => exact R.pure _
  | some e => exact R.bind (expr_related here e (h e rfl)) fun _ => R.pure _

/-- A branch is checked in a scope of its own if it is a block. -/
theorem branch?_related (here : Nat) (e : Option Expr) (h : ∀ x ∈ e, R.Holds (.expr x)) :
    R.rel (branch? cx here e) (branch? cx' here e) := by
  cases e with
  | none => exact R.pure _
  | some e =>
    have he := h e rfl
    cases e with
    | block b =>
      exact R.bind (block_related here [] b fun a ha => he.child (List.mem_map_of_mem ha))
        fun _ => R.pure _
    | _ => exact R.bind (expr_related here _ he) fun _ => R.pure _

/-- A condition of a loop that is missing is reported at the span of the loop. -/
theorem loopCondition_related (here : Nat) (construct : String) {span : Span}
    (hspan : R.span span) (e : Option Expr) (h : ∀ x ∈ e, R.Holds (.expr x)) :
    R.rel (loopCondition cx here construct span e) (loopCondition cx' here construct span e) := by
  cases e with
  | none => exact R.report rfl hspan
  | some e =>
    have he := h e rfl
    cases e with
    | block b =>
      exact R.bind (block_related here [] b fun a ha => he.child (List.mem_map_of_mem ha))
        fun _ => R.checkType _ _ he.spanSelf
    | _ => exact R.bind (expr_related here _ he) fun _ => R.checkType _ _ he.spanSelf

/-- A bound of a loop has to be a number. -/
theorem bound?_related (here : Nat) (e : Option Expr) (h : ∀ x ∈ e, R.Holds (.expr x)) :
    R.rel (bound? cx here e) (bound? cx' here e) := by
  cases e with
  | none => exact R.pure _
  | some e =>
    exact R.bind (expr_related here e (h e rfl)) fun _ => R.checkType _ _ (h e rfl).spanSelf

/-- A body that is missing is reported at the span of the construct. -/
theorem body?_related (here : Nat) (locals : List (String × ValueType)) (construct : String)
    {span : Span} (hspan : R.span span) (b : Option Block) (h : ∀ x ∈ b, R.Holds (.block x)) :
    R.rel (body? cx here locals construct span b) (body? cx' here locals construct span b) := by
  cases b with
  | none => exact R.report rfl hspan
  | some b =>
    exact R.bind (block_related here locals b fun a ha =>
      (h b rfl).child (List.mem_map_of_mem ha)) fun _ => R.pure _

/-- What a loop starts with is checked in the scope of the loop. -/
theorem init?_related (here : Nat) (e : Option Expr) (h : ∀ x ∈ e, R.Holds (.expr x)) :
    R.rel (init? cx here e) (init? cx' here e) := by
  cases e with
  | none => exact R.pure _
  | some e =>
    have he := h e rfl
    cases e with
    | block b =>
      cases b with
      | mk id statements span =>
        exact R.bind (stmts_related here .nothing statements fun a ha =>
          he.child (List.mem_map_of_mem ha)) fun _ => R.pure _
    | _ => exact R.bind (expr_related here _ he) fun _ => R.pure _

/-- The parts of a construct are checked in the order of the source, most of them in scopes of their
own. -/
theorem control_related (here : Nat) (c : Control) (hspan : R.span c.span)
    (h : ∀ m ∈ c.children, R.Holds m) : R.rel (control cx here c) (control cx' here c) := by
  cases c with
  | ifThen condition form branch otherwise span =>
    have hbranch : R.Holds (.expr branch) := h _ (by simp [Control.children])
    have hotherwise : ∀ x ∈ otherwise, R.Holds (.expr x) := fun x hx =>
      h _ (by simp_all [Control.children])
    have hthen : R.rel (thenPart cx here branch) (thenPart cx' here branch) := by
      cases branch with
      | block b => exact block_related here [] b fun a ha => hbranch.child (List.mem_map_of_mem ha)
      | _ => exact expr_related here _ hbranch
    -- With a condition or without, the branches are checked in the same way.
    have hparts := R.bind hthen fun thenType =>
      R.bind (branch?_related here otherwise hotherwise) fun otherType =>
        R.pure (ifType form thenType otherType)
    rw [control_ifThen, control_ifThen]
    cases condition with
    | none => exact R.bind (R.report rfl hspan) fun _ => hparts
    | some e =>
      have he : R.Holds (.expr e) := h _ (by simp [Control.children])
      exact R.bind (expr_related here e he) fun _ =>
        R.bind (R.checkType _ _ he.spanSelf) fun _ => hparts
  | whileDo condition body span =>
    have hcondition : ∀ x ∈ condition, R.Holds (.expr x) := fun x hx =>
      h _ (by simp_all [Control.children])
    have hbody : ∀ x ∈ body, R.Holds (.block x) := fun x hx => h _ (by simp_all [Control.children])
    exact R.bind (loopCondition_related here "while" hspan condition hcondition) fun _ =>
      R.bind (body?_related here [] "while" hspan body hbody) fun _ => R.pure _
  | forDo header body span =>
    have hbody : ∀ x ∈ body, R.Holds (.block x) := fun x hx => h _ (by simp_all [Control.children])
    have hheader : ∀ x ∈ header.parts, R.Holds (.expr x) := fun x hx =>
      h _ (by simp [Control.children, hx])
    cases header with
    | range name first last step =>
      have hfirst : ∀ x ∈ first, R.Holds (.expr x) := fun x hx =>
        hheader x (by simp_all [ForHeader.parts])
      have hlast : ∀ x ∈ last, R.Holds (.expr x) := fun x hx =>
        hheader x (by simp_all [ForHeader.parts])
      have hstep : ∀ x ∈ step, R.Holds (.expr x) := fun x hx =>
        hheader x (by simp_all [ForHeader.parts])
      have hloop := R.bind (bound?_related here first hfirst) fun _ =>
        R.bind (bound?_related here last hlast) fun _ =>
          R.bind (bound?_related here step hstep) fun _ =>
            R.bind (body?_related here [(name.text, .number)] "for" hspan body hbody) fun _ =>
              R.pure (α := ValueType) .nothing
      rw [control, control]
      split
      · exact R.bind (R.report rfl hspan) fun _ => hloop
      · exact hloop
    | classic init condition step =>
      have hinit : ∀ x ∈ init, R.Holds (.expr x) := fun x hx =>
        hheader x (by simp_all [ForHeader.parts])
      have hcondition : ∀ x ∈ condition, R.Holds (.expr x) := fun x hx =>
        hheader x (by simp_all [ForHeader.parts])
      have hstep : ∀ x ∈ step, R.Holds (.expr x) := fun x hx =>
        hheader x (by simp_all [ForHeader.parts])
      exact R.bind (R.openScope here _) fun loop => R.bind (init?_related loop init hinit) fun _ =>
        R.bind (loopCondition_related loop "for" hspan condition hcondition) fun _ =>
          R.bind (expr?_related loop step hstep) fun _ =>
            R.bind (body?_related loop [] "for" hspan body hbody) fun _ => R.pure _
    | missing =>
      exact R.bind (R.report rfl hspan) fun _ =>
        R.bind (body?_related here [] "for" hspan body hbody) fun _ => R.pure _
  | switchDo subject body span =>
    have hbody : ∀ x ∈ body, R.Holds (.block x) := fun x hx => h _ (by simp_all [Control.children])
    have hrest := R.bind (body?_related here [] "switch" hspan body hbody) fun _ =>
      R.pure (α := ValueType) .any
    cases subject with
    | none => exact R.bind (R.report rfl hspan) fun _ => hrest
    | some e =>
      exact R.bind (expr_related here e (h _ (by simp [Control.children]))) fun _ => hrest
  | case isDefault condition b span =>
    have hcondition : ∀ x ∈ condition, R.Holds (.expr x) := fun x hx =>
      h _ (by simp_all [Control.children])
    rw [control, control]
    refine R.bind (expr?_related here condition hcondition) fun _ => ?_
    cases b with
    | none => exact R.pure _
    | some b =>
      have hb : R.Holds (.block b) := h _ (by simp [Control.children])
      exact R.bind (block_related here [] b fun a ha => hb.child (List.mem_map_of_mem ha))
        fun _ => R.pure _

end

/-- The checks of a script are related if all of its tree is. -/
theorem program_related (p : Program) (h : R.Holds (.program p)) :
    R.rel (program cx p) (program cx' p) :=
  R.bind (stmts_related R 0 .nothing p.statements fun _ ha => h.child (List.mem_map_of_mem ha))
    fun _ => R.pure _

end Check

end Sqf
