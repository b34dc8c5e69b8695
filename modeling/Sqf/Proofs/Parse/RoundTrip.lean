import Sqf.Proofs.Parse.ReadControl

/-!
# What is written is read back

A script whose tree is writable and not too high is read back from the words of
its tree: nothing is reported, and the tree that is read differs from the one
that was written in spans and block numbers only.

The parsers of a level read back the same nodes as those of the level below, but
three levels higher, so an induction over the levels gives what the parsers of
the uppermost one read.
-/

namespace Sqf

open Recast Written

namespace Parse

section Level

variable {table : Table} {numeral : Double → String} {f : Nat → Nat} {inner : Level} {n : Nat}

/-! ## Expressions -/

/-- A unary command is written as a name, a sign or a keyword. -/
theorem isPrefixCommand_cases {command : String} (h : isPrefixCommand command = true) :
    commandKind command = .identifier ∧ isLocalName command = false ∨
      commandKind command = .not ∨ commandKind command = .dash ∨ commandKind command = .plus ∨
      commandKind command = .privateWord := by
  unfold isPrefixCommand at h
  split at h
  · next hkind => exact .inr (.inl hkind)
  · next hkind => exact .inr (.inr (.inl hkind))
  · next hkind => exact .inr (.inr (.inr (.inl hkind)))
  · next hkind => exact .inr (.inr (.inr (.inr hkind)))
  · next hkind =>
    rw [Bool.not_eq_true'] at h
    exact .inl ⟨hkind, h⟩
  · cases h

/-- An operand is the whole expression before quiet words. -/
theorem gives_expression {limit : Tier} {ws rest : List Word} {P : Expr → Prop}
    (h : Gives f (inner.operand table) ws rest P) (hrest : Quiet rest) :
    Gives f (inner.expression table limit) ws rest P :=
  Gives.bind h fun e' he => gives_operators_quiet limit e' hrest he

/-- A construct that is read back is an operand. -/
theorem gives_operand_control {ws rest : List Word} {P : Control → Prop}
    (h : Yields f inner.control ws rest P) (hstarts : startsControl (firstKind ws) = true) :
    Gives f (inner.operand table) ws rest fun e' => ∃ c', e' = Expr.control c' ∧ P c' := by
  have hcontrol : Gives f (do
      let c ← (inner.control : Parse Control)
      return .control c) ws rest fun e' => ∃ c', e' = Expr.control c' ∧ P c' :=
    Gives.lift_bind h fun c' hc => Gives.pure ⟨c', rfl, hc⟩
  -- The kinds that an operand is told by otherwise start no construct.
  refine Gives.kind_bind _ rfl ?_
  generalize firstKind ws = first at hstarts
  cases first <;> first | exact hcontrol | cases hstarts

namespace Level.Reads

variable (hr : inner.Reads table numeral f n) {e : Expr} {rest : List Word}
include hr

/-- So is what stands in parentheses. -/
theorem gives_operand_parens (h : Fits table numeral (n + 1) (.expr e)) :
    Gives f (inner.operand table) (inParens (Written.expr numeral e) ++ rest) rest fun e' =>
      (renumbered f).expr e' = unplaced.expr e :=
  Gives.kind_bind .openParen rfl (hr.gives_grouped h)

/-- A unary command is read back with its operand in parentheses. -/
theorem gives_unary {command : Name} {span : Span} (hcommand : isPrefixCommand command.text)
    (h : Fits table numeral n (.expr e)) (hrest : Quiet rest) :
    Gives f (inner.operand table)
      (Written.command command :: inParens (Written.expr numeral e) ++ rest) rest
      fun e' => (renumbered f).expr e' = unplaced.expr (.unary command e span) := by
  rw [Written.command]
  rcases isPrefixCommand_cases hcommand with ⟨hkind, hlocal⟩ | hkind | hkind | hkind | hkind
  · rw [hkind]
    exact Gives.kind_bind .identifier rfl (hr.gives_named command hlocal span h hrest)
  · rw [hkind]
    exact Gives.kind_bind .not rfl (hr.gives_prefixed _ command span h hrest)
  · rw [hkind]
    exact Gives.kind_bind .dash rfl (hr.gives_prefixed _ command span h hrest)
  · rw [hkind]
    exact Gives.kind_bind .plus rfl (hr.gives_prefixed _ command span h hrest)
  · rw [hkind]
    exact Gives.kind_bind .privateWord rfl (hr.gives_prefixed _ command span h hrest)

/-- Both operands stand in parentheses, so how tightly the operator binds does not matter. -/
theorem gives_binary {left right : Expr} {command : Name} {joint : Joint} {span : Span}
    (hcommand : table.isInfixCommand command.text)
    (hjoint : joint = jointOf (commandKind command.text))
    (hleft : Fits table numeral (n + 1) (.expr left)) (hright : Fits table numeral n (.expr right))
    (hrest : Quiet rest) :
    Gives f (inner.expression table .lowest)
      (inParens (Written.expr numeral left) ++
        (Written.command command :: inParens (Written.expr numeral right) ++ rest)) rest
      fun e' => (renumbered f).expr e' =
        unplaced.expr (.binary joint left command right span) := by
  refine Gives.bind (hr.gives_operand_parens hleft) ?_
  intro left' hleft'
  rw [operators_eq]
  refine Gives.state_bind ?_
  intro s hs
  -- The tier of the operator is whatever the table says; it is above the lowest one.
  rcases exists_tier hs.token hcommand with ⟨tier, htier⟩
  rw [htier]
  simp only [tighter_lowest htier, ↓reduceIte]
  refine Gives.lift_bind (yields_text _ _) ?_
  intro op hread
  rcases hread with ⟨hkind, hvalue⟩
  refine Gives.bind (hr.parens right tier rest hright hrest) ?_
  intro right' hright'
  refine gives_operators_quiet _ _ hrest ?_
  rw [joint_joined, hkind, hvalue, hjoint, Recast.expr, Recast.expr, hleft', hright']
  rfl

/-- Every expression that fits is read back where a parenthesis closes it. -/
theorem gives_bare (h : Fits table numeral (n + 2) (.expr e)) :
    Gives f (inner.expression table .lowest) (Written.expr numeral e ++ .mark .closeParen :: rest)
      (.mark .closeParen :: rest) fun e' => (renumbered f).expr e' = unplaced.expr e := by
  have hquiet : Quiet (.mark .closeParen :: rest) := quiet_mark (by decide) _
  -- A node takes three levels, so there is a level left for what stands inside of it.
  have hpos : 1 ≤ n := by
    have hle := h.three_le
    omega
  have hchild (k : Nat) (hle : n - 1 ≤ k) (e' : Expr) (he' : .expr e' ∈ (Node.expr e).children) :
      Fits table numeral k (.expr e') := h.child he' (by omega)
  have hle := Nat.sub_le n 1
  cases e with
  | number value span =>
    rw [Written.expr]
    exact gives_expression (Gives.kind_bind .number rfl (gives_number h.self span _)) hquiet
  | string value span =>
    rw [Written.expr]
    refine gives_expression (Gives.kind_bind .string rfl ?_) hquiet
    refine Gives.lift_bind (yields_text _ _) ?_
    intro t hread
    rcases hread with ⟨_, hvalue⟩
    apply Gives.pure
    rw [hvalue]
    rfl
  | name name =>
    rw [Written.expr]
    exact gives_expression (Gives.kind_bind .identifier rfl (gives_named_self inner name rest))
      hquiet
  | array elements span =>
    have helements : ∀ e' ∈ elements, Fits table numeral n (.expr e') := fun e' he' =>
      hchild n hle e' (by simp [Node.children, he'])
    rw [Written.expr, List.append_assoc, List.singleton_append]
    refine gives_expression (Gives.kind_bind .openBracket rfl ?_) hquiet
    refine Gives.mono (hr.gives_arrayLiteral helements) ?_
    rintro _ ⟨elements', span', rfl, helements'⟩
    rw [Recast.expr, Recast.expr, helements']
    rfl
  | block b =>
    cases b with
    | mk id statements span =>
      rw [Written.expr]
      refine gives_expression (Gives.kind_bind .openCurly (by rw [Written.block]; rfl) ?_) hquiet
      refine Gives.lift_bind (hr.block _ _ h.block) ?_
      intro b' hb'
      apply Gives.pure
      rw [Recast.expr, Recast.expr, hb']
  | unary command operand span =>
    have hoperand := hchild n hle operand (by simp [Node.children])
    rw [Written.expr]
    exact gives_expression (hr.gives_unary h.self hoperand hquiet) hquiet
  | binary joint left command right span =>
    have hleft := hchild (n + 1) (by omega) left (by simp [Node.children])
    have hright := hchild n hle right (by simp [Node.children])
    rw [Written.expr, List.append_assoc]
    exact hr.gives_binary h.self.1 h.self.2 hleft hright hquiet
  | control c =>
    have hparts : PartsFit table numeral (n - 1) c := h.partsOfExpr (by omega)
    have hcloses : Closes (.mark .closeParen :: rest) := .inr (.inr (.inr rfl))
    rw [Written.expr]
    refine gives_expression ?_ hquiet
    refine Gives.mono (gives_operand_control (hr.yields_control hpos hparts hcloses)
      (startsControl_firstKind numeral hparts.complete _)) ?_
    rintro _ ⟨c', rfl, hc'⟩
    rw [Recast.expr, Recast.expr, hc']
  | error span => cases h.self

end Level.Reads

/-! ## Statements -/

/-- The first word of a statement is none at which the loop over statements would end or that
it would pass over. -/
theorem startsStatement_stmt {a : Stmt} (h : (Node.stmt a).Writable table numeral)
    (ws : List Word) {s : State} (hs : Stands f (Written.stmt numeral a ++ ws) s) :
    StartsStatement s := by
  have hkind := hs.kind
  cases a with
  | expression e =>
    rw [Written.stmt] at hkind
    exact startsStatement_of_kind (k := .openParen) hkind (by decide)
  | assignment isPrivate target value span =>
    rw [Written.stmt] at hkind
    cases isPrivate with
    | true => exact startsStatement_of_kind (k := .privateWord) hkind (by decide)
    | false => exact startsStatement_of_kind (k := .identifier) hkind (by decide)
  | control c =>
    -- The keyword of a construct is no separator and closes nothing.
    have hstarts := startsControl_firstKind numeral (c := c) h ws
    rw [Written.stmt] at hkind
    rw [← hkind] at hstarts
    constructor
    · intro hend
      rw [hend] at hstarts
      cases hstarts
    · intro hcurly
      rw [hcurly] at hstarts
      cases hstarts
    · cases hfirst : s.kind <;> first | rfl | (rw [hfirst] at hstarts; cases hstarts)
  | error span => cases h

/-- A statement has at least one word. -/
theorem stmt_ne_nil {a : Stmt} (h : (Node.stmt a).Writable table numeral) :
    Written.stmt numeral a ≠ [] := by
  intro hnil
  -- Before no words at all stands the end of input, which starts no statement.
  have hs : Stands id (Written.stmt numeral a ++ []) { rest := [], finish := {} } := by
    rw [hnil]
    exact ⟨.nil, trivial⟩
  exact (startsStatement_stmt h [] hs).notEnd rfl

namespace Level.Reads

variable (hr : inner.Reads table numeral f n) {e : Expr} {rest : List Word}
include hr

/-- An assignment is read back, with its value in parentheses. -/
theorem gives_assignment (isPrivate : Bool) (start span : Span) (target : Name)
    (h : Fits table numeral n (.expr e)) (hrest : Quiet rest) :
    Gives f (inner.assignment isPrivate start)
      (.text .identifier target.text :: .mark .assignment :: inParens (Written.expr numeral e) ++
        rest) rest
      fun a => (renumbered f).stmt a = unplaced.stmt (.assignment isPrivate target e span) := by
  refine Gives.lift_bind (yields_text _ _) ?_
  intro t hread
  rcases hread with ⟨_, hvalue⟩
  refine Gives.bind (gives_expect _ _ _) ?_
  intro _ _
  refine Gives.bind (hr.parens e .lowest rest h hrest) ?_
  intro e' he
  apply Gives.pure
  rw [Recast.stmt, Recast.stmt, he, hvalue]
  rfl

/-- Any statement is read back. -/
theorem gives_statement {a : Stmt} (h : Fits table numeral n (.stmt a)) (hrest : Closes rest) :
    Gives f inner.statement (Written.stmt numeral a ++ rest) rest fun a' =>
      (renumbered f).stmt a' = unplaced.stmt a := by
  have hexpr (e : Expr) (he : .expr e ∈ (Node.stmt a).children) :
      Fits table numeral n (.expr e) := h.child he (Nat.le_add_right n 3)
  refine Gives.state_bind ?_
  intro s hs
  have hkind := hs.kind
  have hsecond := hs.kindAt 1
  have hthird := hs.kindAt 2
  cases a with
  | expression e =>
    rw [Written.stmt] at hkind ⊢
    -- A parenthesis starts neither an assignment nor a construct.
    replace hkind : s.kind = .openParen := hkind
    rw [if_neg (by simp [hkind]), if_neg (by simp [hkind, startsControl]),
      if_neg (by simp [hkind])]
    refine Gives.bind (hr.parens e .lowest rest (hexpr e (by simp [Node.children])) hrest.quiet) ?_
    intro e' he
    apply Gives.pure
    rw [Recast.stmt, Recast.stmt, he]
  | assignment isPrivate target value span =>
    have hvalue := hexpr value (by simp [Node.children])
    rw [Written.stmt] at hkind hsecond hthird ⊢
    cases isPrivate with
    | true =>
      replace hkind : s.kind = .privateWord := hkind
      replace hsecond : s.kindAt 1 = .identifier := hsecond
      replace hthird : s.kindAt 2 = .assignment := hthird
      rw [if_pos (by simp [hkind, hsecond, hthird])]
      refine Gives.lift_bind (yields_mark _) ?_
      intro start _
      exact hr.gives_assignment true start.span span target hvalue hrest.quiet
    | false =>
      replace hkind : s.kind = .identifier := hkind
      replace hsecond : s.kindAt 1 = .assignment := hsecond
      rw [if_neg (by simp [hkind]), if_neg (by simp [hkind, startsControl]),
        if_pos (by simp [hkind, hsecond])]
      exact hr.gives_assignment false s.token.span span target hvalue hrest.quiet
  | control c =>
    -- The parts of a construct are read at the level of the statement itself.
    have hpos : 1 ≤ n := Nat.le_trans (by decide) h.three_le
    have hparts : PartsFit table numeral (n - 1) c := h.partsOfStmt (by omega)
    have hstarts := startsControl_firstKind numeral hparts.complete rest
    rw [Written.stmt] at hkind ⊢
    rw [← hkind] at hstarts
    have hprivate : s.kind ≠ .privateWord := by
      intro hprivate
      rw [hprivate] at hstarts
      cases hstarts
    rw [if_neg (by simp [hprivate]), if_pos hstarts]
    refine Gives.lift_bind (hr.yields_control hpos hparts hrest) ?_
    intro c' hc
    apply Gives.pure
    rw [Recast.stmt, Recast.stmt, hc]
  | error span => cases h.self

end Level.Reads

/-- What stands behind a statement: a semicolon, or the end of the statements. -/
def Separates (enclosure : Enclosure) (ws rest : List Word) : Prop :=
  ws = .mark .semicolon :: rest ∨
    ws = rest ∧ (firstKind rest = .endOfInput ∨ firstKind rest = .closeCurly ∧ enclosure = .block)

/-- What separates statements takes words, or none. -/
theorem Separates.length_le {enclosure : Enclosure} {ws rest : List Word}
    (h : Separates enclosure ws rest) : rest.length ≤ ws.length := by
  rcases h with rfl | ⟨rfl, _⟩
  · exact Nat.le_succ _
  · exact Nat.le_refl _

/-- It starts with a word that can belong to no statement. -/
theorem Separates.closes {enclosure : Enclosure} {ws rest : List Word}
    (h : Separates enclosure ws rest) : Closes ws := by
  rcases h with rfl | ⟨rfl, h | ⟨h, _⟩⟩
  · exact .inr (.inl rfl)
  · exact .inl h
  · exact .inr (.inr (.inl h))

/-- It is read without a report. -/
theorem yields_separator {enclosure : Enclosure} {ws rest : List Word}
    (h : Separates enclosure ws rest) : Yields f Level.separator ws rest fun _ => True := by
  refine Yields.state_bind ?_
  intro s hs
  have hkind := hs.kind
  rcases h with rfl | ⟨rfl, h⟩
  · rw [if_pos (by rw [hkind]; rfl)]
    exact Yields.bind (yields_mark _) fun _ _ => Yields.pure trivial
  · rw [← hkind] at h
    rcases h with h | ⟨h, _⟩
    · rw [if_neg (by rw [h]; decide), if_neg (by simp [h])]
      exact Yields.pure trivial
    · rw [if_neg (by rw [h]; decide), if_neg (by simp [h])]
      exact Yields.pure trivial

namespace Level.Reads

variable (hr : inner.Reads table numeral f n) {e : Expr} {rest : List Word}
include hr

/-- One turn of the loop reads one statement. -/
theorem yields_turn {a : Stmt} {enclosure : Enclosure} {ws : List Word}
    (h : Fits table numeral n (.stmt a)) (hws : Separates enclosure ws rest) :
    Yields f (inner.turn enclosure) (Written.stmt numeral a ++ ws) rest fun r =>
      ∃ a', r = some a' ∧ (renumbered f).stmt a' = unplaced.stmt a := by
  have hstatement : Yields f inner.statementOrError (Written.stmt numeral a ++ ws) rest fun a' =>
      (renumbered f).stmt a' = unplaced.stmt a := by
    refine Yields.state_bind ?_
    intro s _
    refine Yields.run_bind (hr.gives_statement h hws.closes) ?_
    intro a' ha'
    exact Yields.bind (yields_separator hws) fun _ _ => Yields.pure ha'
  intro s hs
  have hstarts := startsStatement_stmt h.self ws hs
  obtain ⟨hvalue, hnext⟩ := @turn_starts inner enclosure s hstarts
  rcases hstatement s hs with ⟨ha, hstands⟩
  rw [hvalue, hnext]
  exact ⟨⟨_, rfl, ha⟩, hstands⟩

/-- All statements are read up to the end of the block or input. -/
theorem yields_statements {ss : List Stmt} {enclosure : Enclosure}
    (h : ∀ a ∈ ss, Fits table numeral n (.stmt a))
    (hrest : firstKind rest = .endOfInput ∨ firstKind rest = .closeCurly ∧ enclosure = .block) :
    Yields f (inner.statements enclosure) (Written.stmts numeral ss ++ rest) rest fun ss' =>
      (renumbered f).stmts ss' = unplaced.stmts ss := by
  induction ss with
  | nil =>
    intro s hs
    rw [Written.stmts, List.nil_append] at hs
    rw [← hs.kind] at hrest
    obtain ⟨hnil, hstays⟩ := statements_end inner hrest
    rw [hnil, hstays]
    exact ⟨rfl, hs, rfl⟩
  | cons a ss ih =>
    have hothers := ih fun b hb => h b (List.mem_cons_of_mem _ hb)
    -- Behind the last statement stand the words that follow, behind any other a semicolon.
    obtain ⟨ws, hwords, hws⟩ : ∃ ws, Written.stmts numeral (a :: ss) ++ rest =
        Written.stmt numeral a ++ ws ∧
          Separates enclosure ws (Written.stmts numeral ss ++ rest) := by
      cases ss with
      | nil =>
        rw [Written.stmts, Written.stmts, List.nil_append]
        exact ⟨rest, rfl, .inr ⟨rfl, hrest⟩⟩
      | cons b ss =>
        refine ⟨_, ?_, .inl rfl⟩
        rw [Written.stmts, List.append_assoc, List.cons_append]
        intro hnil
        cases hnil
    intro s hs
    rw [hwords] at hs
    rcases hr.yields_turn (h a List.mem_cons_self) hws s hs with
      ⟨⟨a', hvalue, ha'⟩, hstands, hreports⟩
    -- The statement has a word at least, so the loop is not cut off.
    have hread : (inner.turn enclosure s).next.rest.length < s.rest.length := by
      have hpos := List.length_pos_iff.2 (stmt_ne_nil (h a List.mem_cons_self).self)
      have hle := hws.length_le
      have hlength : (Written.stmt numeral a ++ ws).length = _ := List.length_append
      rw [hs.length, hstands.length]
      omega
    rcases many_of_some hvalue hread with ⟨hcons, hnext⟩
    rcases hothers _ hstands with ⟨hss', hstands', hreports'⟩
    rw [Level.statements, hcons, hnext]
    refine ⟨?_, hstands', hreports'.trans hreports⟩
    show (renumbered f).stmt a' :: _ = unplaced.stmt a :: _
    rw [ha']
    exact congrArg _ hss'

/-- A block is read back, three levels above its statements. -/
theorem yields_codeBlock {b : Block} (h : Fits table numeral (n + 3) (.block b)) :
    Yields f inner.codeBlock (Written.block numeral b ++ rest) rest fun b' =>
      (renumbered f).block b' = unplaced.block b := by
  rcases b with ⟨id, statements, span⟩
  have hstatements : ∀ a ∈ statements, Fits table numeral n (.stmt a) := fun a ha =>
    h.child (by simp [Node.children, ha]) (Nat.le_refl _)
  rw [Written.block, List.append_assoc]
  refine yields_opening ?_
  intro start next hnext
  refine Yields.bind (hr.yields_statements hstatements (.inr ⟨rfl, rfl⟩)) ?_
  intro ss' hss'
  -- The closing brace is among the words, so it is not missing.
  have hbrace : Yields f Level.closingBrace (.mark .closeCurly :: rest) rest fun _ => True := by
    refine Yields.kind_bind .closeCurly rfl ?_
    rw [if_pos rfl]
    exact Yields.bind (yields_mark _) fun _ _ => Yields.pure trivial
  refine Yields.bind hbrace ?_
  intro _ _
  refine Yields.spanFrom_bind ?_
  intro span'
  apply Yields.pure
  rw [Recast.block, Recast.block, hss']
  show Block.mk (f next) _ _ = _
  rw [hnext]
  rfl

end Level.Reads

/-! ## All levels -/

/-- What the parsers of a level read back, those of the level above do. -/
theorem Level.Reads.succ (hr : inner.Reads table numeral f n) :
    Level.Reads table numeral f ⟨inner.expression table, inner.codeBlock⟩ (n + 1) where
  parens e tier rest h hrest := gives_expression (hr.gives_operand_parens h) hrest
  bare e rest h := hr.gives_bare h
  branchBlock b tier rest h hrest := by
    rcases b with ⟨id, statements, span⟩
    refine gives_expression (Gives.kind_bind .openCurly (by rw [Written.block]; rfl) ?_) hrest
    refine Gives.lift_bind (hr.block _ rest h) ?_
    intro b' hb'
    apply Gives.pure
    rw [Recast.expr, Recast.expr, hb']
  header es tier rest _ h hrest :=
    gives_expression (Gives.kind_bind .openBracket rfl (hr.gives_arrayLiteral h)) hrest
  block b rest h := hr.yields_codeBlock h

/-- Nothing that has a height fits where nothing may be nested any more. -/
theorem level_reads (table : Table) (numeral : Double → String) (f : Nat → Nat) (n : Nat) :
    (level table n).Reads table numeral f n := by
  induction n with
  | zero =>
    constructor
    · intro e tier rest h
      exact absurd h.three_le (by decide)
    · intro e rest h
      exact absurd h.three_le (by decide)
    · intro b tier rest h
      exact absurd h.three_le (by decide)
    · intro es tier rest h
      exact absurd h (by decide)
    · intro b rest h
      exact absurd h.three_le (by decide)
  | succ n ih => exact ih.succ

end Level

/-! ## Scripts -/

/-- What is written is read back. A tree that can be written and is not higher than a third of
the nesting limit is read from every spelling of its words without a report. It comes back as it
was up to spans, and some function takes the block numbers back to those it had. -/
theorem parse_written (table : Table) (numeral : Double → String) (p : Program)
    (hwritable : ∀ n ∈ (Node.program p).walk, n.Writable table numeral)
    (hheight : 3 * (Node.program p).height ≤ maxNesting) (ts : List Token)
    (hts : Spelled (Written.program numeral p) ts) (finish : Option Token)
    (hfinish : ∀ t ∈ finish, t.kind = .endOfInput) :
    (parse table (ts ++ finish.toList)).diagnostics = [] ∧
      ∃ f, (renumbered f).stmts (parse table (ts ++ finish.toList)).program.statements =
        unplaced.stmts p.statements := by
  -- The function that takes the numbers back is fixed before anything is read.
  rcases exists_takesBack (Written.program numeral p) 1 with ⟨f, hf⟩
  have hrest := rest_initial hts (inside_stmts numeral p.statements) hfinish
  have hstands : Stands f (Written.program numeral p ++ [])
      (State.initial (ts ++ finish.toList)) := by
    rcases initial_found (ts ++ finish.toList) with ⟨_, hnext, _, _⟩
    rw [List.append_nil]
    exact ⟨by rwa [hrest], by rwa [hnext]⟩
  have hfits : Fits table numeral maxNesting (.program p) := ⟨hwritable, hheight⟩
  have hstatements : ∀ a ∈ p.statements, Fits table numeral maxNesting (.stmt a) := fun a ha =>
    hfits.child (by simp [Node.children, ha]) (Nat.le_add_right _ 3)
  have hread : Yields f ((level table maxNesting).statements .file)
      (Written.program numeral p ++ []) [] fun ss =>
        (renumbered f).stmts ss = unplaced.stmts p.statements :=
    (level_reads table numeral f maxNesting).yields_statements hstatements (.inl rfl)
  rcases hread _ hstands with ⟨hvalue, _, hreports⟩
  refine ⟨?_, f, hvalue⟩
  rcases initial_found (ts ++ finish.toList) with ⟨_, _, hnone, _⟩
  exact congrArg Array.toList (hreports.trans hnone)

/-- An assignment and an `if`, of which the block had number 7 before. -/
theorem parse_written_if :
    let name : Name := ⟨"_n", {}⟩
    let p : Program := ⟨[.assignment true name (.number ⟨0x3FF0000000000000⟩ {}) {},
      .control (.ifThen (some (.unary ⟨"!", {}⟩ (.name name) {})) .thenBranch
        (.block ⟨7, [.expression (.name name)], {}⟩) none {})], {}⟩
    let ts : List Token := [⟨.privateWord, "private", {}⟩, ⟨.identifier, "_n", {}⟩,
      ⟨.assignment, "=", {}⟩, ⟨.openParen, "(", {}⟩, ⟨.number, "1", {}⟩, ⟨.closeParen, ")", {}⟩,
      ⟨.semicolon, ";", {}⟩, ⟨.ifWord, "if", {}⟩, ⟨.openParen, "(", {}⟩, ⟨.not, "!", {}⟩,
      ⟨.openParen, "(", {}⟩, ⟨.identifier, "_n", {}⟩, ⟨.closeParen, ")", {}⟩,
      ⟨.closeParen, ")", {}⟩, ⟨.thenWord, "then", {}⟩, ⟨.openCurly, "\x7b", {}⟩,
      ⟨.openParen, "(", {}⟩, ⟨.identifier, "_n", {}⟩, ⟨.closeParen, ")", {}⟩,
      ⟨.closeCurly, "\x7d", {}⟩]
    (parse .empty (ts ++ (some (Token.endAt 0)).toList)).diagnostics = [] ∧
      ∃ f, (renumbered f).stmts
          (parse .empty (ts ++ (some (Token.endAt 0)).toList)).program.statements =
        unplaced.stmts p.statements := by
  intro name p ts
  have hone : Numeral.read? "1" = some ⟨0x3FF0000000000000⟩ := by decide +kernel
  -- What is left to check is about the tree alone: that it can be written, how high it is, and how
  -- it is spelled.
  refine parse_written .empty (fun _ => "1") p ?_ ?_ ts ?_ (some (Token.endAt 0)) ?_
  · simp [p, Node.walk_eq, Node.children, Control.children, Node.Writable, Control.Complete, hone]
    decide
  · simp [p, Node.height_eq, Node.children, Control.children, maxNesting]
  · simp [Spelled, Written.program, p, ts, name, Written.stmts, Written.stmt, Written.control,
      Written.expr, Written.part, Written.block, asBranch, Written.elseBranch, inParens,
      Word.Spells, Written.command, branchWord]
    decide
  · intro t ht
    cases ht
    rfl

end Parse

end Sqf
