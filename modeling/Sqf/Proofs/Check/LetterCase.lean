import Sqf.Proofs.Check.Steps
import Sqf.Proofs.Parse.LetterCase

/-!
# Capital letters in a check

A script in lower case is checked like the script itself. Commands, functions
and locals are looked up in lower case, so the two runs of the checker find the
same types and bind the same locals, and report the same problems with the names
in lower case (`letter_case`).
-/

namespace Sqf

open Recast (lowered)

namespace Check

/-! ## The two runs -/

/-- The state with the texts of all diagnostics in lower case. -/
def State.lowered (s : State) : State :=
  { s with diagnostics := s.diagnostics.map Recast.lowered.diagnostic }

/-- The first part does on a state in lower case what the second one does on the state itself. -/
def Lowers (c c' : Check α) : Prop := ∀ s, c s.lowered = ((c' s).1, (c' s).2.lowered)

section Rules

variable {here : Nat}

theorem Lowers.pure (a : α) : Lowers (Pure.pure a) (Pure.pure a) :=
  fun _ => rfl

/-- Checks one after the other are the same in lower case if each is. -/
theorem Lowers.bind {c c' : Check α} {k k' : α → Check β} (h : Lowers c c')
    (hk : ∀ a, Lowers (k a) (k' a)) : Lowers (c >>= k) (c' >>= k') := by
  intro s
  show (match c s.lowered with | (a, t) => k a t) = _
  rw [h s]
  exact hk (c' s).1 (c' s).2

/-- The second part looks at the scopes only, which are the same in both runs. -/
theorem Lowers.get_bind {k k' : State → Check α} (h : ∀ s, Lowers (k s.lowered) (k' s)) :
    Lowers (get >>= k) (get >>= k') :=
  fun s => h s s

/-- What is reported is reported in lower case. -/
theorem Lowers.report (cause : Cause) (span : Span) :
    Lowers (Check.report (lowered.cause cause) span) (Check.report cause span) := by
  intro s
  show ((), State.mk s.scopes ((s.diagnostics.map lowered.diagnostic).push
    (lowered.diagnostic ⟨cause, span⟩))) = _
  rw [← Array.map_push]
  rfl

/-- Opening a scope looks at no name. -/
theorem Lowers.openScope (id : Nat) :
    Lowers (Check.openScope here id) (Check.openScope here id) :=
  fun _ => rfl

/-- Locals are bound under their names in lower case, so the capital letters of a name do not
matter. -/
theorem bindAt_toLower (ss : Scopes) (index : Nat) (name : String) (type : ValueType) :
    ss.bindAt index name.toLower type = ss.bindAt index name type := by
  simp only [Scopes.bindAt, Scope.bind, Text.toLower_idem]

/-- Nor do they when a local is looked up. -/
theorem resolve_toLower (ss : Scopes) (index : Nat) (name : String) :
    ss.resolve index name.toLower = ss.resolve index name := by
  rw [Scopes.resolve, Scopes.resolve, Text.toLower_idem]

/-- A local that is declared in lower case is the same local. -/
theorem Lowers.declare (index : Nat) (name : String) (type : ValueType) :
    Lowers (Check.declare index name.toLower type) (Check.declare index name type) := by
  intro s
  show ((), State.mk (s.scopes.bindAt index name.toLower type) _) = _
  rw [bindAt_toLower]
  rfl

/-- So are several that are declared one after the other. -/
theorem Lowers.declareAll (names : List String) :
    Lowers (Check.declareAll here (names.map String.toLower)) (Check.declareAll here names) := by
  induction names with
  | nil => exact Lowers.pure ()
  | cons name names ih => exact (Lowers.declare here name .any).bind fun _ => ih

/-- Locals with their names in lower case. -/
def loweredLocals (locals : List (String × ValueType)) : List (String × ValueType) :=
  locals.map fun (name, type) => (name.toLower, type)

theorem Lowers.declareLocals (locals : List (String × ValueType)) :
    Lowers ((loweredLocals locals).forM fun (name, type) => Check.declare here name type)
      (locals.forM fun (name, type) => Check.declare here name type) := by
  induction locals with
  | nil => exact Lowers.pure ()
  | cons entry locals ih => exact (Lowers.declare here entry.1 entry.2).bind fun _ => ih

/-- An assignment finds the same local, or binds the same new one. -/
theorem Lowers.assign (name : String) (type : ValueType) :
    Lowers (Check.assign here name.toLower type) (Check.assign here name type) := by
  unfold Check.assign
  refine Lowers.get_bind fun s => ?_
  rw [resolve_toLower]
  exact Lowers.declare _ name type

/-- A report about types names no identifiers, so it stays as it is. -/
theorem Lowers.checkType (expected received : ValueType) (span : Span) :
    Lowers (Check.checkType expected received span) (Check.checkType expected received span) := by
  unfold Check.checkType
  split
  · exact Lowers.report (.typeMismatch expected.displayName received.displayName) span
  · exact Lowers.pure _

/-- A local has the same type in lower case, and is reported in lower case if it is unknown. -/
theorem Lowers.localType (cx : Context) (n : Name) :
    Lowers (Check.localType cx here (lowered.name n)) (Check.localType cx here n) := by
  have hnormalized : (lowered.name n).normalized = n.normalized := Text.toLower_idem n.text
  unfold Check.localType
  rw [hnormalized]
  split
  · exact Lowers.pure _
  · refine Lowers.get_bind fun s => ?_
    have hresolve : s.lowered.scopes.resolve here (lowered.name n).text =
        s.scopes.resolve here n.text := resolve_toLower s.scopes here n.text
    rw [hresolve]
    -- Only a local that is not found may be reported, and then by its name.
    cases s.scopes.resolve here n.text with
    | some found => exact Lowers.pure _
    | none =>
      dsimp only
      split
      · exact (Lowers.report (.undefinedVariable n.text) n.span).bind fun _ => Lowers.pure _
      · exact Lowers.pure _

/-- A global name is looked up among commands and known functions in lower case. -/
theorem Lowers.globalType (cx : Context) (n : Name) :
    Lowers (Check.globalType cx (lowered.name n)) (Check.globalType cx n) := by
  have hoverloads : cx.table.overloads (lowered.name n).text .nular =
      cx.table.overloads n.text .nular := cx.table.overloads_toLower n.text .nular
  have hfunction : cx.settings.isFunction (lowered.name n).text =
      cx.settings.isFunction n.text := by
    unfold Settings.isFunction
    rw [← Text.toLower_idem n.text]
    rfl
  have hknown : cx.table.isKnown (lowered.name n).text = cx.table.isKnown n.text :=
    cx.table.isKnown_toLower n.text
  unfold Check.globalType
  rw [hoverloads, hfunction, hknown]
  -- The three questions to the table and the settings have the same answers, so the branches are
  -- the same.
  cases cx.table.overloads n.text .nular with
  | cons s ss => exact Lowers.pure _
  | nil =>
    dsimp only
    split
    · exact Lowers.pure _
    · split
      · exact (Lowers.report (.unsupportedArity n.text Arity.nular.name) n.span).bind fun _ =>
          Lowers.pure _
      · exact Lowers.pure _

/-- An underscore stays one in lower case, so a local stays a local. -/
theorem isLocal_lowered (n : Name) : (lowered.name n).isLocal = n.isLocal :=
  isLocalName_toLower n.text

/-- A name is a local or a global, and each has its type in lower case. -/
theorem Lowers.nameType (cx : Context) (n : Name) :
    Lowers (Check.nameType cx here (lowered.name n)) (Check.nameType cx here n) := by
  unfold Check.nameType
  rw [isLocal_lowered]
  split
  · exact Lowers.localType cx n
  · exact Lowers.globalType cx n

/-- A command is found in lower case if it is found at all, and reported in lower case otherwise. -/
theorem Lowers.commandExists (cx : Context) (command : Name) (arity : Arity) :
    Lowers (Check.commandExists cx (lowered.name command) arity)
      (Check.commandExists cx command arity) := by
  have hhas : cx.table.has (lowered.name command).text arity = cx.table.has command.text arity :=
    cx.table.has_toLower command.text arity
  have hknown : cx.table.isKnown (lowered.name command).text = cx.table.isKnown command.text :=
    cx.table.isKnown_toLower command.text
  unfold Check.commandExists
  rw [hhas, hknown]
  split
  · exact Lowers.pure _
  · refine Lowers.bind ?_ fun _ => Lowers.pure _
    split
    · exact Lowers.report (.unsupportedArity command.text arity.name) command.span
    · exact Lowers.report (.unknownCommand command.text) command.span

/-- Overloads are chosen by types and by the name in lower case. -/
theorem resolve_lowered (table : Table) (command : Name) (arity : Arity)
    (types : List ValueType) :
    table.resolve (lowered.name command).text arity types =
      table.resolve command.text arity types := by
  show table.resolve command.text.toLower arity types = _
  unfold Table.resolve
  rw [table.overloads_toLower, table.isKnown_toLower]

/-- The type of a call in lower case is that of the call. If no overload takes the operands, the
report differs in the name of the command only. -/
theorem Lowers.resultType (cx : Context) (command : Name) (arity : Arity)
    (operands : List (ValueType × Span)) :
    Lowers (Check.resultType cx (lowered.name command) arity operands)
      (Check.resultType cx command arity operands) := by
  unfold Check.resultType
  rw [resolve_lowered]
  cases cx.table.resolve command.text arity (operands.map (·.1)) with
  | noMatch closest argument =>
    exact (Lowers.report (.noApplicableOverload command.text (some argument) _ _) _).bind fun _ =>
      Lowers.pure _
  | found s => exact Lowers.pure _
  | unknown => exact Lowers.pure _
  | unsupportedArity => exact Lowers.pure _

/-- What a command yields if it is known. -/
theorem Lowers.resultIf (cx : Context) (isKnown : Bool) (command : Name) (arity : Arity)
    (operands : List (ValueType × Span)) :
    Lowers
      (if isKnown then Check.resultType cx (lowered.name command) arity operands else return .any)
      (if isKnown then Check.resultType cx command arity operands else return .any) := by
  split
  · exact Lowers.resultType cx command arity operands
  · exact Lowers.pure _

/-- A string that names a local names it in lower case. -/
theorem declaredName?_lowered (e : Expr) :
    declaredName? (lowered.expr e) = (declaredName? e).map String.toLower := by
  cases e with
  | array elements span =>
    cases elements with
    | nil => rfl
    | cons first elements => cases first <;> rfl
  | _ => rfl

/-- A call declares the same locals when the strings that name them are in lower case. -/
theorem declaredNames_lowered (command : Name) (operand : Expr) :
    declaredNames (lowered.name command) (lowered.expr operand) =
      (declaredNames command operand).map String.toLower := by
  have hnormalized : (lowered.name command).normalized = command.normalized :=
    Text.toLower_idem command.text
  -- Both forms of operand, an array and a single string, come down to a list of expressions.
  have hnames (es : List Expr) :
      ((es.map lowered.expr).filterMap declaredName?).filter isLocalName =
        ((es.filterMap declaredName?).filter isLocalName).map String.toLower := by
    rw [List.filterMap_map, show declaredName? ∘ lowered.expr =
      fun e => (declaredName? e).map String.toLower from funext declaredName?_lowered,
      ← List.map_filterMap, List.filter_map,
      show isLocalName ∘ String.toLower = isLocalName from funext isLocalName_toLower]
  unfold declaredNames
  rw [hnormalized]
  split
  · cases operand with
    | array elements span =>
      show ((lowered.exprs elements).filterMap declaredName?).filter isLocalName = _
      rw [Recast.exprs_eq_map]
      exact hnames elements
    | _ => exact hnames [_]
  · rfl

/-- The number of the scope of a loop does not depend on names. -/
theorem classicScopeId_lowered (init : Option Expr) (body : Option Block) :
    classicScopeId (lowered.expr? init) (lowered.block? body) = classicScopeId init body := by
  have hbody : classicScopeId none (lowered.block? body) = classicScopeId none body := by
    rcases body with _ | ⟨id, statements, span⟩ <;> rfl
  rcases init with _ | e
  · exact hbody
  · cases e with
    | block b => cases b; rfl
    | _ => exact hbody

end Rules

/-! ## All of the check -/

variable (cx : Context)

mutual

/-- The induction is on the tree of the script in its own spelling. Each construct is put together
from checks that are the same in lower case. -/
theorem expr_lowers (here : Nat) (e : Expr) :
    Lowers (Check.expr cx here (lowered.expr e)) (Check.expr cx here e) := by
  cases e with
  | number value span => exact Lowers.pure _
  | string value span => exact Lowers.pure _
  | name n => exact Lowers.nameType cx n
  | array elements span => exact (exprs_lower here elements).bind fun _ => Lowers.pure _
  | block b => exact (block_lowers here [] b).bind fun _ => Lowers.pure _
  | unary command operand span =>
    rw [Recast.expr, Check.expr, Check.expr, declaredNames_lowered, Recast.span_expr]
    exact (Lowers.commandExists cx command .unary).bind fun isKnown =>
      (Lowers.declareAll _).bind fun _ =>
        (expr_lowers here operand).bind fun _ =>
          Lowers.resultIf cx isKnown command .unary _
  | binary joint left command right span =>
    rw [Recast.expr, Check.expr, Check.expr, declaredNames_lowered, Recast.span_expr,
      Recast.span_expr]
    exact (expr_lowers here left).bind fun _ =>
      (Lowers.commandExists cx command .binary).bind fun isKnown =>
        (expr_lowers here right).bind fun _ =>
          (Lowers.declareAll _).bind fun _ =>
            Lowers.resultIf cx isKnown command .binary _
  | control c => exact control_lowers here c
  | error span => exact Lowers.pure _

/-- Elements are checked from left to right. -/
theorem exprs_lower (here : Nat) (es : List Expr) :
    Lowers (Check.exprs cx here (lowered.exprs es)) (Check.exprs cx here es) := by
  cases es with
  | nil => exact Lowers.pure _
  | cons e es =>
    exact (expr_lowers here e).bind fun _ => (exprs_lower here es).bind fun _ => Lowers.pure _

/-- A part that is missing stays missing. -/
theorem expr?_lowers (here : Nat) (e : Option Expr) :
    Lowers (Check.expr? cx here (lowered.expr? e)) (Check.expr? cx here e) := by
  cases e with
  | none => exact Lowers.pure _
  | some e => exact (expr_lowers here e).bind fun _ => Lowers.pure _

/-- A branch is a block or an expression in either spelling. -/
theorem branch?_lowers (here : Nat) (e : Option Expr) :
    Lowers (Check.branch? cx here (lowered.expr? e)) (Check.branch? cx here e) := by
  cases e with
  | none => exact Lowers.pure _
  | some e =>
    cases e with
    | block b => exact (block_lowers here [] b).bind fun _ => Lowers.pure _
    | _ => exact (expr_lowers here _).bind fun _ => Lowers.pure _

/-- A condition of a loop has to be a block, or have the type of one. Its span is the same in lower
case, so a report about it is at the same place. -/
theorem loopCondition_lowers (here : Nat) (construct : String) (span : Span) (e : Option Expr) :
    Lowers (Check.loopCondition cx here construct span (lowered.expr? e))
      (Check.loopCondition cx here construct span e) := by
  cases e with
  | none => exact Lowers.report (.missingCondition construct) span
  | some e =>
    cases e with
    | block b =>
      cases b with
      | mk id statements blockSpan =>
        exact (block_lowers here [] ⟨id, statements, blockSpan⟩).bind fun _ =>
          Lowers.checkType _ _ _
    -- A construct is no block, so it is checked as an expression, at its own span.
    | control c =>
      have hspan : (Expr.control (lowered.control c)).span = (Expr.control c).span :=
        Recast.span_control lowered c
      show Lowers (Check.control cx here (lowered.control c) >>= fun type =>
        Check.checkType .code type (Expr.control (lowered.control c)).span) _
      rw [hspan]
      exact (control_lowers here c).bind fun _ => Lowers.checkType _ _ _
    | _ => exact (expr_lowers here _).bind fun _ => Lowers.checkType _ _ _

theorem bound?_lowers (here : Nat) (e : Option Expr) :
    Lowers (Check.bound? cx here (lowered.expr? e)) (Check.bound? cx here e) := by
  cases e with
  | none => exact Lowers.pure _
  | some e =>
    rw [Recast.expr?, Check.bound?, Check.bound?, Recast.span_expr]
    exact (expr_lowers here e).bind fun _ => Lowers.checkType _ _ _

/-- A block declares what it is given and checks its statements. -/
theorem block_lowers (here : Nat) (locals : List (String × ValueType)) (b : Block) :
    Lowers (Check.block cx here (loweredLocals locals) (lowered.block b))
      (Check.block cx here locals b) := by
  cases b with
  | mk id statements span =>
    exact (Lowers.openScope id).bind fun inside =>
      (Lowers.declareLocals locals).bind fun _ => stmts_lower inside .nothing statements

/-- The body of a loop may be missing, which is reported. -/
theorem body?_lowers (here : Nat) (locals : List (String × ValueType)) (construct : String)
    (span : Span) (b : Option Block) :
    Lowers (Check.body? cx here (loweredLocals locals) construct span (lowered.block? b))
      (Check.body? cx here locals construct span b) := by
  cases b with
  | none => exact Lowers.report (.missingBody construct) span
  | some b => exact (block_lowers here locals b).bind fun _ => Lowers.pure _

theorem init?_lowers (here : Nat) (e : Option Expr) :
    Lowers (Check.init? cx here (lowered.expr? e)) (Check.init? cx here e) := by
  cases e with
  | none => exact Lowers.pure _
  | some e =>
    cases e with
    | block b =>
      cases b with
      | mk id statements span =>
        exact (stmts_lower here .nothing statements).bind fun _ => Lowers.pure _
    | _ => exact (expr_lowers here _).bind fun _ => Lowers.pure _

/-- An assignment binds a local, or does nothing if its target is no local. -/
theorem stmt_lowers (here : Nat) (a : Stmt) :
    Lowers (Check.stmt cx here (lowered.stmt a)) (Check.stmt cx here a) := by
  cases a with
  | expression e => exact expr_lowers here e
  | assignment isPrivate target value span =>
    rw [Recast.stmt, Check.stmt, Check.stmt, isLocal_lowered]
    refine (expr_lowers here value).bind fun type => ?_
    split
    · exact (Lowers.declare here target.text type).bind fun _ => Lowers.pure _
    · split
      · exact (Lowers.assign target.text type).bind fun _ => Lowers.pure _
      · exact Lowers.pure _
  | control c => exact control_lowers here c
  | error span => exact Lowers.pure _

/-- Statements hand on the type of the last one. -/
theorem stmts_lower (here : Nat) (last : ValueType) (ss : List Stmt) :
    Lowers (Check.stmts cx here last (lowered.stmts ss)) (Check.stmts cx here last ss) := by
  cases ss with
  | nil => exact Lowers.pure _
  | cons a ss => exact (stmt_lowers here a).bind fun type => stmts_lower here type ss

/-- The constructs, with their parts in the order in which they are checked. -/
theorem control_lowers (here : Nat) (c : Control) :
    Lowers (Check.control cx here (lowered.control c)) (Check.control cx here c) := by
  cases c with
  | ifThen condition form branch otherwise span =>
    -- A first branch is a block or an expression.
    have hbranch : Lowers (Check.thenPart cx here (lowered.expr branch))
        (Check.thenPart cx here branch) := by
      cases branch with
      | block b => exact block_lowers here [] b
      | _ => exact expr_lowers here _
    have hparts := hbranch.bind fun thenType =>
      (branch?_lowers here otherwise).bind fun otherType =>
        Lowers.pure (Check.ifType form thenType otherType)
    rw [Recast.control, Check.control_ifThen, Check.control_ifThen]
    cases condition with
    | none => exact (Lowers.report (.missingCondition "if") span).bind fun _ => hparts
    | some e =>
      rw [Recast.expr?]
      dsimp only
      rw [Recast.span_expr]
      exact (expr_lowers here e).bind fun _ => (Lowers.checkType _ _ _).bind fun _ => hparts
  | whileDo condition body span =>
    exact (loopCondition_lowers here "while" span condition).bind fun _ =>
      (body?_lowers here [] "while" span body).bind fun _ => Lowers.pure _
  | forDo header body span =>
    cases header with
    | range name first last step =>
      -- A missing bound is reported before the bounds are checked. What comes behind is the same.
      have hloop := (bound?_lowers here first).bind fun _ =>
        (bound?_lowers here last).bind fun _ =>
          (bound?_lowers here step).bind fun _ =>
            (body?_lowers here [(name.text, .number)] "for" span body).bind fun _ =>
              Lowers.pure (α := ValueType) .nothing
      have hnone (e : Option Expr) : (lowered.expr? e).isNone = e.isNone := by cases e <;> rfl
      rw [Recast.control, Recast.forHeader, Check.control, Check.control, hnone, hnone]
      split
      · exact (Lowers.report (.missingCondition "for") span).bind fun _ => hloop
      · exact hloop
    | classic init condition step =>
      rw [Recast.control, Recast.forHeader, Check.control, Check.control, classicScopeId_lowered]
      exact (Lowers.openScope _).bind fun loop => (init?_lowers loop init).bind fun _ =>
        (loopCondition_lowers loop "for" span condition).bind fun _ =>
          (expr?_lowers loop step).bind fun _ =>
            (body?_lowers loop [] "for" span body).bind fun _ => Lowers.pure _
    | missing =>
      exact (Lowers.report (.missingCondition "for") span).bind fun _ =>
        (body?_lowers here [] "for" span body).bind fun _ => Lowers.pure _
  | switchDo subject body span =>
    have hbody := (body?_lowers here [] "switch" span body).bind fun _ =>
      Lowers.pure (α := ValueType) .any
    cases subject with
    | none => exact (Lowers.report (.missingCondition "switch") span).bind fun _ => hbody
    | some e => exact (expr_lowers here e).bind fun _ => hbody
  | case isDefault condition b span =>
    rw [Recast.control, Check.control, Check.control]
    refine Lowers.bind (expr?_lowers here condition) fun _ => ?_
    cases b with
    | none => exact Lowers.pure _
    | some b => exact (block_lowers here [] b).bind fun _ => Lowers.pure _

end

end Check

/-- A tree in lower case is checked like the tree itself. -/
theorem check_lowered (table : Table) (settings : Settings) (p : Program) :
    (check table settings (lowered.program p)).diagnostics =
        (check table settings p).diagnostics.map lowered.diagnostic ∧
      (check table settings (lowered.program p)).scopes = (check table settings p).scopes := by
  have hlowers : Check.Lowers (Check.program ⟨table, settings⟩ (lowered.program p))
      (Check.program ⟨table, settings⟩ p) :=
    (Check.stmts_lower _ 0 .nothing p.statements).bind fun _ => Check.Lowers.pure _
  have hrun := hlowers {}
  have hstart : Check.State.lowered {} = {} := by
    rw [Check.State.lowered, Array.map_empty]
  rw [hstart] at hrun
  unfold check
  simp only [StateT.run, hrun, Check.State.lowered, Array.toList_map]
  exact ⟨rfl, rfl⟩

/-- Capital letters make no difference. A source text in lower case has tokens of the same kinds at
the same places, is read as the same tree with all names and strings in lower case, and is checked
with the same scopes. Scanning, reading and checking report the same, in the same order, with the
quoted texts in lower case. -/
theorem letter_case (table : Table) (settings : Settings) (source : String) :
    (scan source.toLower).tokens.map (fun t => (t.kind, t.span)) =
        (scan source).tokens.map (fun t => (t.kind, t.span)) ∧
      (scan source.toLower).diagnostics = (scan source).diagnostics.map lowered.diagnostic ∧
      parse table (scan source.toLower).tokens = (parse table (scan source).tokens).lowered ∧
      parseSource table source.toLower = (parseSource table source).lowered ∧
      (check table settings (parseSource table source.toLower).program).scopes =
        (check table settings (parseSource table source).program).scopes ∧
      (check table settings (parseSource table source.toLower).program).diagnostics =
        (check table settings (parseSource table source).program).diagnostics.map
          lowered.diagnostic ∧
      checkSource table settings source.toLower =
        (checkSource table settings source).map lowered.diagnostic := by
  have hparse := parseSource_toLower table source
  have hprogram : (parseSource table source.toLower).program =
      lowered.program (parseSource table source).program := congrArg Parsed.program hparse
  have hreports : (parseSource table source.toLower).diagnostics =
      (parseSource table source).diagnostics.map lowered.diagnostic :=
    congrArg Parsed.diagnostics hparse
  -- The check of the lowered tree is that of the tree; it remains to say which tree this is.
  rcases check_lowered table settings (parseSource table source).program with
    ⟨hcheck, hscopes⟩
  rw [← hprogram] at hcheck hscopes
  refine ⟨?_, scan_toLower_diagnostics source, parse_scan_toLower table source, hparse, hscopes,
    hcheck, ?_⟩
  · rw [scan_toLower_tokens, scan_tokens, List.map_append, List.map_append, List.map_map]
    rfl
  · simp only [checkSource, hreports, hcheck, List.map_append]

end Sqf
