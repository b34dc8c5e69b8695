import Sqf.Proofs.Parse.PassesControl

/-!
# Scripts are read

Every parser passes if those for what stands inside do (`level_passes`), so the statements of a
script are read from its first token to where the parser stops (`statements_read`).
-/

namespace Sqf.Parse

namespace Level

variable {inner : Level} (levels : LevelPasses inner) {s : State}

include levels

/-! ## Expressions -/

omit levels in
/-- A token is read as a node of its own. -/
theorem atom_passes {f : Token → Expr} (hatom : (Node.expr (f s.token)).isAtom = true)
    (hspan : (f s.token).span = s.token.span) :
    PassesOrFails (do
      let t ← (advance : Parse Token)
      return f t) (fun e ns _ => ns = [.expr e]) s := by
  refine PassesOrFails.advance_collect
    (P := fun e _ t => e = f s.token ∧ t = (advance s).next) (PassesOrFails.pure ⟨rfl, rfl⟩) ?_
  rintro _ ns t - ⟨rfl, rfl⟩
  exact .atom hatom hspan

omit levels in
/-- A number is read as a node of its own. -/
theorem numberLiteral_passes :
    PassesOrFails numberLiteral (fun e ns _ => ns = [.expr e]) s := by
  refine PassesOrFails.state_bind ?_
  dsimp only
  split
  · next value hvalue =>
    exact atom_passes (f := fun _ => .number value s.token.span) rfl rfl
  · exact PassesOrFails.throw rfl

/-- A command is applied to the operand that is read. -/
def IsApplied (command : Token) (e : Expr) (ns : List Node) : Prop :=
  ∃ operand, e = applied command operand ∧ ns = [.expr operand]

/-- The operand of a command that has been read. -/
theorem operandOf_passes (command : Token) :
    PassesOrFails (do return applied command (← inner.expr .unary))
      (fun e ns _ => IsApplied command e ns) s := by
  refine (levels.expr .unary s).bind fun operand t => PassesOrFails.pure ?_
  rintro _ rfl
  exact ⟨operand, rfl, rfl⟩

/-- A command in front of its operand. -/
theorem prefixed_passes : PassesOrFails inner.prefixed (fun e ns _ => ns = [.expr e]) s := by
  refine PassesOrFails.advance_collect (operandOf_passes levels s.token) ?_
  rintro _ _ t hreads ⟨operand, rfl, rfl⟩
  exact .unary hreads

/-- A name, as a variable or as a command with its operand. -/
theorem named_passes (table : Table) :
    PassesOrFails (inner.named table) (fun e ns _ => ns = [.expr e]) s := by
  refine PassesOrFails.advance_collect (P := fun e ns t => IsApplied s.token e ns ∨
    e = .name ⟨s.token.value, s.token.span⟩ ∧ t = (advance s).next)
    (PassesOrFails.state_bind ?_) ?_
  · split
    · exact (operandOf_passes levels _).weaken fun e ns t he => .inl he
    · exact PassesOrFails.pure (.inr ⟨rfl, rfl⟩)
  · rintro _ _ t hreads (⟨operand, rfl, rfl⟩ | ⟨rfl, rfl⟩)
    · exact .unary hreads
    · exact .atom rfl rfl

/-- What stands in parentheses is the node itself. -/
theorem grouped_passes : PassesOrFails inner.grouped (fun e ns _ => ns = [.expr e]) s := by
  refine PassesOrFails.advance_bind ?_
  refine (levels.expr .lowest _).bind fun e u => PassesOrFails.expect_bind fun closer v => ?_
  refine PassesOrFails.pure ?_
  rintro _ rfl
  rfl

/-- Elements are read one after the other; the recursion is over the tokens left. -/
theorem commaList_passes (s : State) (expectation : String) (tier : Tier) :
    PassesOrFails (commaList .closeBracket expectation (inner.expr tier))
      (fun es ns _ => ns = es.map .expr) s := by
  rw [commaList_eq (by decide) expectation (inner.expr tier)]
  refine PassesOrFails.kind_bind ?_
  split
  · exact PassesOrFails.pure rfl
  · refine (levels.expr tier s).bind_run fun e he => PassesOrFails.kind_bind ?_
    split
    · next hcomma =>
      have hread := length_advance (s := ((inner.expr tier).run s).next) (by rw [hcomma]; decide)
      have hle := length_next_le (inner.expr tier).run s
      refine PassesOrFails.advance_bind ?_
      -- The comma is one token less for the elements behind it.
      refine (commaList_passes (advance ((inner.expr tier).run s).next).next expectation tier).bind
        fun es v => PassesOrFails.pure ?_
      rintro _ rfl _ rfl
      simp
    · split
      · refine PassesOrFails.pure ?_
        rintro _ rfl
        rfl
      · exact PassesOrFails.failUnexpected _
termination_by s.rest.length

/-- An array with its elements. -/
theorem arrayLiteral_passes :
    PassesOrFails inner.arrayLiteral (fun e ns _ => ns = [.expr e]) s := by
  refine PassesOrFails.advance_collect (P := fun e _ u => ∃ es t,
    Passage .whole (advance s).next (es.map .expr) t ∧ u = (advance t).next ∧
      e = .array es (u.spanFrom s.token.span)) ?_ ?_
  · refine (commaList_passes levels _ _ .lowest).attach.bind fun es t => ?_
    refine PassesOrFails.advance_bind (PassesOrFails.pure ?_)
    rintro _ ⟨rfl, hreads⟩
    exact ⟨es, t, hreads, rfl, rfl⟩
  · rintro _ _ _ - ⟨es, t, hreads, rfl, rfl⟩
    exact .array hreads

/-- Any operand. -/
theorem operand_passes (table : Table) :
    PassesOrFails (inner.operand table) (fun e ns _ => ns = [.expr e]) s := by
  unfold operand
  refine PassesOrFails.kind_bind ?_
  split
  · exact numberLiteral_passes
  · exact atom_passes (f := fun t => .string t.value t.span) rfl rfl
  · exact named_passes levels table
  · exact grouped_passes levels
  · exact arrayLiteral_passes levels
  · next hk =>
    -- A block that is a value is a node around that of the block.
    have hblock : PassesOrFails (do
        let b ← (inner.block : Parse Block)
        return Expr.block b) (fun e ns _ => ∃ b, e = .block b ∧ ns = [.block b]) s :=
      PassesOrFails.lift_bind (levels.block s hk) fun b t => PassesOrFails.pure
        fun ns hns => ⟨b, rfl, by rw [hns]; rfl⟩
    refine hblock.collect ?_
    rintro _ _ t hreads ⟨b, rfl, rfl⟩
    exact .blockExpr hreads
  case h_11 =>
    split
    · exact ⟨_, control_reads levels (.expr (.control _)) rfl, rfl⟩
    · exact PassesOrFails.failUnexpected _
  all_goals exact prefixed_passes levels

/-- Operators are taken one after the other, and what was read becomes the left operand; the
recursion is over the tokens left. -/
theorem operators_passes (table : Table) (limit : Tier) {first : State} (s : State) {left : Expr}
    (hleft : Passage .whole first [.expr left] s) :
    ∃ ns, Passage .whole first ns ((inner.operators table limit left).run s).next ∧
      OnOutcome (fun e ns _ => ns = [.expr e]) ((inner.operators table limit left).run s).value
        ns ((inner.operators table limit left).run s).next := by
  rw [operators_eq inner, Attempt.value_lift_bind, Attempt.next_lift_bind, value_state, next_state]
  -- The nodes on the left were read from an earlier state on, so the passage starts there.
  split
  · exact ⟨_, hleft, rfl⟩
  · next tier htier =>
    split
    · have hne : s.kind ≠ .endOfInput := by
        intro hend
        rw [tier?_endOfInput table hend] at htier
        cases htier
      have hread := length_advance hne
      have hle := length_next_le (inner.expr tier).run (advance s).next
      rw [Attempt.value_lift_bind, Attempt.next_lift_bind, value_advance]
      obtain ⟨ns, hreads, hns⟩ := levels.expr tier (advance s).next
      -- Without a right operand all that was read on the left is lost.
      cases hright : ((inner.expr tier).run (advance s).next).value with
      | ok right =>
        rw [hright] at hns
        obtain rfl : ns = [.expr right] := hns
        rw [(Attempt.bind_ok hright).1, (Attempt.bind_ok hright).2]
        exact operators_passes table limit _ (.binary hleft hreads)
      | error d =>
        rw [hright] at hns
        rw [(Attempt.bind_error hright).1, (Attempt.bind_error hright).2]
        exact ⟨[], .pass (hleft.reaches.advance.trans hreads.reaches), hns⟩
    · exact ⟨_, hleft, rfl⟩
termination_by s.rest.length

/-- An expression, with all operators that it takes. -/
theorem expression_passes (table : Table) (limit : Tier) :
    PassesOrFails (inner.expression table limit) (fun e ns _ => ns = [.expr e]) s := by
  obtain ⟨ns, hreads, hns⟩ := operand_passes (s := s) levels table
  unfold expression PassesOrFails Passes
  cases hleft : ((inner.operand table).run s).value with
  | ok left =>
    rw [hleft] at hns
    obtain rfl : ns = [.expr left] := hns
    rw [(Attempt.bind_ok hleft).1, (Attempt.bind_ok hleft).2]
    exact operators_passes levels table limit _ hreads
  | error d =>
    rw [hleft] at hns
    rw [(Attempt.bind_error hleft).1, (Attempt.bind_error hleft).2]
    exact ⟨ns, hreads, hns⟩

/-! ## Statements -/

/-- A value is read for an assignment, which starts at `start`. -/
def IsAssigned (start : Span) (a : Stmt) (ns : List Node) : Prop :=
  ∃ isPrivate target value,
    a = .assignment isPrivate target value (start.join value.span) ∧ ns = [.expr value]

/-- The value of an assignment is read behind the name. -/
theorem assigned_passes (isPrivate : Bool) (name : Name) (start : Span) :
    PassesOrFails (do
      let _ ← expect .assignment "`=`"
      let value ← inner.expr .lowest
      return .assignment isPrivate name value (start.join value.span))
      (fun a ns _ => IsAssigned start a ns) s := by
  refine PassesOrFails.expect_bind fun sign u => ?_
  refine (levels.expr .lowest u).bind fun value v => PassesOrFails.pure ?_
  rintro _ rfl
  exact ⟨_, _, value, rfl, rfl⟩

/-- Any statement. -/
theorem statement_passes :
    PassesOrFails inner.statement (fun a ns _ => ns = [.stmt a]) s := by
  -- The node of an assignment starts with its first token, which is the name or `private`.
  have hassigned : ∀ (a : Stmt) ns t, Passage .whole (advance s).next ns t →
      IsAssigned s.token.span a ns → Passage .whole s [.stmt a] t := by
    rintro _ _ t hreads ⟨isPrivate, target, value, rfl, rfl⟩
    exact .assignment hreads
  unfold statement
  refine PassesOrFails.state_bind ?_
  split
  · refine PassesOrFails.advance_collect ?_ hassigned
    exact PassesOrFails.advance_bind (assigned_passes levels true _ _)
  · split
    · exact ⟨_, control_reads levels (.stmt (.control _)) rfl, rfl⟩
    · split
      · exact PassesOrFails.advance_collect (assigned_passes levels false _ _) hassigned
      · have hexpression : PassesOrFails inner.expressionStmt
            (fun a ns _ => ∃ e, a = .expression e ∧ ns = [.expr e]) s :=
          (levels.expr .lowest s).bind fun e t => PassesOrFails.pure
            fun ns hns => ⟨e, rfl, by rw [hns]; rfl⟩
        refine hexpression.collect ?_
        rintro _ _ t hreads ⟨e, rfl, rfl⟩
        exact .expression hreads

omit levels in
/-- Where nothing is passed over, the statement ends. -/
theorem kind_synchronize {start u : State}
    (h : (synchronize start u).next.rest = u.rest) :
    (synchronize start u).next.kind = .endOfInput ∨
      (synchronize start u).next.kind = .closeCurly := by
  by_cases hend : u.kind = .endOfInput
  · exact .inl ((congrArg Token.kind ((reaches_synchronize start u).token_eq h)).trans hend)
  · have hkind := State.kind_congr h hend
    by_cases hcurly : u.kind = .closeCurly
    · exact .inr (hkind.trans hcurly)
    · obtain ⟨ts, hts⟩ := State.exists_cons hend
      have hpos := statementLength_pos ts (openGroups (u.readSince start)) hend hcurly
      have hlength := congrArg List.length h
      change (u.rest.drop (statementLength 0 (openGroups (u.readSince start)) u.rest)).length =
        _ at hlength
      rw [hts, List.length_drop, List.length_cons] at hlength
      omega

/-- A statement, or the placeholder of one that is skipped. -/
theorem statementOrError_passes :
    Passes .whole inner.statementOrError (fun a ns _ => ns = [.stmt a]) s := by
  obtain ⟨ns, hreads, hns⟩ := statement_passes (s := s) levels
  unfold Passes
  cases houtcome : (inner.statement.run s).value with
  | ok a =>
    rw [houtcome] at hns
    obtain rfl : ns = [.stmt a] := hns
    obtain ⟨hvalue, hnext⟩ := statementOrError_ok houtcome
    rw [hvalue, hnext]
    exact ⟨_, hreads.append (.pass (reaches_separator _)), rfl⟩
  | error d =>
    rw [houtcome] at hns
    obtain ⟨hvalue, hnext⟩ := statementOrError_error houtcome
    rw [hvalue, hnext]
    -- What was read of the statement is lost, and its place is that of all that was passed over.
    refine ⟨[.stmt (.error _)], .skipped rfl (value_synchronize _ _)
      ⟨hreads.reaches, hns, reaches_synchronize _ _⟩ fun hrest => .inr ?_, rfl⟩
    exact kind_synchronize hrest

/-- One turn gives one statement, or none at the end. -/
theorem turn_passes (enclosure : Enclosure) :
    Passes .whole (inner.turn enclosure) (fun a ns _ => ns = a.toList.map .stmt) s := by
  refine Passes.state_bind (Passes.quiet_bind (reaches_drop s _) ?_)
  generalize (skip (separators s.rest) s).next = t
  refine Passes.kind_bind ?_
  split
  · exact Passes.pure rfl
  · next hcurly =>
    cases enclosure with
    | block => exact Passes.pure rfl
    | file =>
      have hlt := length_advance (s := t) (by rw [hcurly]; decide)
      -- A closing brace in a file stands for a statement in error.
      have hstray : Passage .whole t [.stmt (.error t.token.span)]
          (report ⟨.unexpectedToken t.token.value, t.token.span⟩ (advance t).next).next := by
        refine .skipped (d := ⟨.unexpectedToken t.token.value, t.token.span⟩) (u := t) rfl ?_
          ⟨.refl, rfl, ?_⟩ fun hrest => ?_
        · rw [State.region_of_lt (by rw [next_report]; exact Nat.lt_of_succ_le (Nat.le_of_eq hlt)),
            next_report, next_advance_eq]
          rfl
        · -- The report may as well come before the brace is read.
          have hreaches := reaches_advance
            (report ⟨.unexpectedToken t.token.value, t.token.span⟩ t).next
          rw [next_advance_eq] at hreaches ⊢
          exact hreaches
        · have hlength := congrArg List.length hrest
          rw [next_report] at hlength
          dsimp only at hlength
          omega
      rw [← value_advance] at hstray
      exact ⟨_, hstray, rfl⟩
  · refine Passes.bind (statementOrError_passes levels) fun a u => Passes.pure ?_
    rintro _ rfl
    rfl

/-- Statements are read one after the other; the recursion is over the tokens left. -/
theorem statements_passes (s : State) (enclosure : Enclosure) :
    Passes .whole (inner.statements enclosure) (fun stmts ns _ => ns = stmts.map .stmt) s := by
  unfold statements
  rw [many_eq]
  refine Passes.state_bind (Passes.bind_run (turn_passes levels enclosure) ?_)
  -- Induction on what is left to read.
  cases (inner.turn enclosure s).value with
  | none =>
    refine Passes.pure ?_
    rintro _ rfl
    rfl
  | some a =>
    refine Passes.state_bind ?_
    split
    · refine Passes.bind (statements_passes _ enclosure) fun stmts t => Passes.pure ?_
      rintro _ rfl _ rfl
      simp
    · refine Passes.quiet_bind (State.Reaches.refl.stall) (Passes.pure ?_)
      rintro _ rfl
      rfl
termination_by s.rest.length

/-- A block has its number before the blocks inside of it. -/
theorem codeBlock_passes (hk : s.kind = .openCurly) :
    Passes .whole inner.codeBlock (fun b ns _ => ns = [.block b]) s := by
  have hopened := (reaches_advance s).freshId
  have hread := length_advance (s := s) (by rw [hk]; decide)
  obtain ⟨ns, hreads, rfl⟩ := statements_passes levels (freshId (advance s).next).next .block
  have hclosed :=
    reaches_closingBrace (inner.statements .block (freshId (advance s).next).next).next
  have hid : (advance s).next.nextId = s.nextId := by rw [next_advance_eq]
  have hlt : (inner.codeBlock s).next.rest.length < s.rest.length := by
    have hle : (inner.codeBlock s).next.rest.length ≤ (advance s).next.rest.length :=
      (hreads.reaches.trans hclosed).rest.length_le
    omega
  have hblock := Passage.block hopened (Nat.le_of_eq hid.symm) (Nat.lt_succ_self _) hreads hclosed
    hlt
  rw [← value_advance s] at hblock
  exact ⟨_, hblock, rfl⟩

omit levels in
/-- What is nested too deeply is reported and passed over. -/
theorem skipNested_passage {n : Node} (hn : n.isError = true)
    (hspan : n.span = (skipNested s).value) : Passage .whole s [n] (skipNested s).next := by
  refine .skipped (d := ⟨.nestingTooDeep maxNesting, s.token.span⟩) (u := s) hn
    (hspan.trans (value_skipNested s)) ⟨.refl, rfl, ?_⟩ fun hrest => .inl hrest
  exact reaches_drop _ _

omit levels in
/-- Past the limit a block has one placeholder inside. -/
theorem deepBlock_passes (hk : s.kind = .openCurly) :
    Passes .whole deepBlock (fun b ns _ => ns = [.block b]) s := by
  have hlt : (skipNested (freshId s).next).next.rest.length < s.rest.length :=
    skipNested_shortens (s := (freshId s).next) (by show s.kind ≠ _; rw [hk]; decide)
      (by show s.kind.closesGroup = _; rw [hk]; rfl) (by show s.kind.isSeparator = _; rw [hk]; rfl)
  have hskipped : Passage .whole (freshId s).next
      ([.error (skipNested (freshId s).next).value].map Node.stmt)
      (skipNested (freshId s).next).next := skipNested_passage rfl rfl
  have hblock := Passage.block (reaches_freshId s) (Nat.le_refl _) (Nat.lt_succ_self _) hskipped
    .refl hlt
  -- The brace is the first token that is skipped, so the block has the span of its placeholder.
  have hspan : (skipNested (freshId s).next).value.join s.token.span =
      (skipNested (freshId s).next).next.spanFrom s.token.span := by
    rw [value_skipNested, State.region_of_lt (s := (freshId s).next) hlt]
    show Span.mk (min s.token.span.start s.token.span.start) _ = _
    rw [Nat.min_self]
    rfl
  rw [← hspan] at hblock
  exact ⟨_, hblock, rfl⟩

end Level

/-- However many levels may be nested, what is read of them passes. -/
theorem level_passes (table : Table) (n : Nat) : LevelPasses (level table n) := by
  induction n with
  | zero =>
    constructor
    · intro tier s
      exact ⟨[.expr (.error (skipNested s).value)], Level.skipNested_passage rfl rfl, rfl⟩
    · intro s hk
      exact Level.deepBlock_passes hk
  | succ n ih =>
    constructor
    · intro tier s
      exact Level.expression_passes ih table tier
    · intro s hk
      exact Level.codeBlock_passes ih hk

/-- A whole script is read. -/
theorem statements_read (table : Table) (tokens : List Token) :
    ∃ t, Passage .whole (.initial tokens) ((parse table tokens).program.statements.map .stmt) t ∧
      (parse table tokens).program.span = ⟨0, t.token.span.stop⟩ ∧
      (parse table tokens).diagnostics = t.diagnostics.toList := by
  obtain ⟨ns, hreads, rfl⟩ :=
    Level.statements_passes (level_passes table maxNesting) (.initial tokens) .file
  exact ⟨_, hreads, rfl, rfl⟩

end Sqf.Parse
