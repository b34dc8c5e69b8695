import Sqf.Proofs.Parse.ReadOperand

/-!
# Reading back control constructs

A control construct whose parts fit is read back, whatever stands behind it, as
long as the words there could not belong to it: what could be missing from a
construct is told from the keyword that is not there.
-/

namespace Sqf

open Recast Written

namespace Parse

section Level

variable {table : Table} {numeral : Double → String} {f : Nat → Nat} {inner : Level} {n : Nat}

/-! ## Parts of control constructs -/

/-- An expression that is given is a part that is there. -/
theorem yields_part {tier : Tier} {ws rest : List Word} {P : Expr → Prop}
    (h : Gives f (inner.expr tier) ws rest P) :
    Yields f (inner.part tier) ws rest fun r => ∃ e', r = some e' ∧ P e' :=
  Yields.run_bind h fun e' he => Yields.pure ⟨e', rfl, he⟩

/-- A part that can be read is not skipped. -/
theorem yields_partOrSkip {tier : Tier} {ws rest : List Word} {P : Expr → Prop}
    (h : Gives f (inner.expr tier) ws rest P) (stops : List Kind) :
    Yields f (inner.partOrSkip tier stops) ws rest fun r => ∃ e', r = some e' ∧ P e' := by
  refine Yields.bind (yields_part h) ?_
  intro r hread
  rcases hread with ⟨e', hr, he⟩
  subst hr
  exact Yields.pure ⟨e', rfl, he⟩

/-- Every branch but a block is an expression in parentheses. -/
theorem asBranch_cases (e : Expr) (ws : List Word) :
    (∃ b, e = .block b) ∨ asBranch e ws = inParens ws := by
  cases e with
  | block b => exact .inl ⟨b, rfl⟩
  | _ => exact .inr rfl

/-- A block starts with a brace. -/
theorem firstKind_block (numeral : Double → String) (b : Block) (ws : List Word) :
    firstKind (Written.block numeral b ++ ws) = .openCurly := by
  rcases b with ⟨id, statements, span⟩
  rfl

/-- The first word of a construct is its keyword. -/
theorem startsControl_firstKind (numeral : Double → String) {c : Control} (h : c.Complete)
    (ws : List Word) :
    startsControl (firstKind (Written.control numeral c ++ ws)) = true := by
  cases c with
  | case isDefault condition b span => cases isDefault <;> (rw [Written.control]; rfl)
  | _ => rw [Written.control]; rfl

/-- A colon is read where it stands, and only there. -/
theorem yields_caseColon (rest : List Word) :
    Yields f Level.caseColon (.mark .colon :: rest) rest fun _ => True := by
  refine Yields.kind_bind .colon rfl ?_
  rw [if_pos rfl]
  exact Yields.bind (yields_mark _) fun _ _ => Yields.pure trivial

/-- Without a colon nothing is read, and none is reported. -/
theorem yields_caseColon_none {rest : List Word} (h : firstKind rest ≠ .colon) :
    Yields f Level.caseColon rest rest fun _ => True := by
  refine Yields.kind_bind _ rfl ?_
  rw [if_neg h]
  exact Yields.pure trivial

/-- The parts of a header without gaps are the elements of an array. -/
theorem classic_cases (numeral : Double → String) {init condition step : Option Expr}
    (hcondition : condition.isSome → init.isSome) (hstep : step.isSome → condition.isSome) :
    let es := init.toList ++ condition.toList ++ step.toList
    Written.forHeader numeral (.classic init condition step) =
        .mark .openBracket :: items numeral es ++ [.mark .closeBracket] ∧
      es[0]? = init ∧ es[1]? = condition ∧ es[2]? = step := by
  cases init with
  | none =>
    cases condition with
    | some e => cases hcondition rfl
    | none =>
      cases step with
      | some e => cases hstep rfl
      | none => exact ⟨by simp [Written.forHeader, items, part, clause], rfl, rfl, rfl⟩
  | some init =>
    cases condition with
    | none =>
      cases step with
      | some e => cases hstep rfl
      | none => exact ⟨by simp [Written.forHeader, items, part, clause], rfl, rfl, rfl⟩
    | some condition =>
      cases step with
      | none => exact ⟨by simp [Written.forHeader, items, part, clause], rfl, rfl, rfl⟩
      | some step => exact ⟨by simp [Written.forHeader, items, part, clause], rfl, rfl, rfl⟩

namespace Level.Reads

variable (hr : inner.Reads table numeral f n) {e : Expr} {rest : List Word}
include hr

/-- A branch is read back. -/
theorem yields_branch (h : Fits table numeral n (.expr e)) (hrest : Quiet rest) :
    Yields f inner.branch (asBranch e (Written.expr numeral e) ++ rest) rest fun e' =>
      (renumbered f).expr e' = unplaced.expr e := by
  rcases asBranch_cases e (Written.expr numeral e) with ⟨b, rfl⟩ | hbranch
  · exact Yields.run_bind (hr.branchBlock b .unary rest (h.block.mono (Nat.le_succ n)) hrest)
      fun e' he => Yields.pure he
  · rw [hbranch]
    exact Yields.run_bind (hr.parens e .unary rest h hrest) fun e' he => Yields.pure he

/-- A block is read back where it could be missing. -/
theorem yields_someBlock {b : Block} (h : Fits table numeral (n + 2) (.block b)) :
    Yields f (do let b' ← inner.block; return some b') (Written.block numeral b ++ rest) rest
      fun r => (renumbered f).block? r = unplaced.block? (some b) := by
  refine Yields.bind (hr.block b rest h) ?_
  intro b' hb'
  apply Yields.pure
  rw [Recast.block?, Recast.block?, hb']

/-- The keyword `do` with a block behind it. -/
theorem yields_doBody {b : Block} (h : Fits table numeral (n + 2) (.block b)) :
    Yields f inner.doBody (.mark .doWord :: Written.block numeral b ++ rest) rest fun r =>
      (renumbered f).block? r = unplaced.block? (some b) := by
  refine Yields.kind_bind .doWord rfl ?_
  rw [if_pos rfl]
  refine Yields.bind (yields_mark _) ?_
  intro _ _
  refine Yields.kind_bind .openCurly (firstKind_block numeral b rest) ?_
  rw [if_pos rfl]
  exact hr.yields_someBlock h

/-- A block that may be absent, with no other block behind it. -/
theorem yields_caseBlock {b : Option Block}
    (h : ∀ b' ∈ b, Fits table numeral (n + 2) (.block b')) (hrest : Closes rest) :
    Yields f inner.caseBlock (Written.block? numeral b ++ rest) rest fun r =>
      (renumbered f).block? r = unplaced.block? b := by
  cases b with
  | none =>
    have hcurly : firstKind rest ≠ .openCurly := hrest.firstKind_ne (by decide)
    rw [Written.block?, List.nil_append]
    refine Yields.kind_bind _ rfl ?_
    rw [if_neg hcurly]
    exact Yields.pure rfl
  | some b =>
    refine Yields.kind_bind .openCurly (firstKind_block numeral b rest) ?_
    rw [if_pos rfl]
    exact hr.yields_someBlock (h b rfl)

/-- A bound behind its keyword. -/
theorem yields_bound (kind : Kind) (h : Fits table numeral n (.expr e)) (hrest : Quiet rest) :
    Yields f inner.bound (.mark kind :: inParens (Written.expr numeral e) ++ rest) rest fun r =>
      ∃ e', r = some e' ∧ (renumbered f).expr e' = unplaced.expr e :=
  Yields.bind (yields_mark kind) fun _ _ => yields_partOrSkip (hr.parens e .command rest h hrest) _

/-- A bound of a range is read back behind its keyword. -/
theorem yields_requiredBound (kind : Kind) (expectation : String)
    (h : Fits table numeral n (.expr e)) (hrest : Quiet rest) :
    Yields f (inner.requiredBound kind expectation)
      (.mark kind :: inParens (Written.expr numeral e) ++ rest) rest fun r =>
        ∃ e', r = some e' ∧ (renumbered f).expr e' = unplaced.expr e := by
  refine Yields.kind_bind kind rfl ?_
  rw [if_pos rfl]
  exact hr.yields_bound kind h hrest

/-- The branch of an `if` is read back with the keyword that tells its form. -/
theorem yields_ifBranch (form : IfForm) (hasCondition : Bool)
    (h : Fits table numeral n (.expr e)) (hrest : Quiet rest) :
    Yields f (inner.ifBranch hasCondition)
      (.mark (branchWord form) :: asBranch e (Written.expr numeral e) ++ rest) rest fun r =>
        r.1 = form ∧ (renumbered f).expr r.2 = unplaced.expr e := by
  cases form with
  | thenBranch =>
    refine Yields.kind_bind .thenWord rfl ?_
    refine Yields.bind (yields_mark _) ?_
    intro _ _
    exact Yields.bind (hr.yields_branch h hrest) fun e' he => Yields.pure ⟨rfl, he⟩
  | exitWith =>
    refine Yields.kind_bind .exitWithWord rfl ?_
    refine Yields.bind (yields_mark _) ?_
    intro _ _
    exact Yields.bind (hr.yields_branch h hrest) fun e' he => Yields.pure ⟨rfl, he⟩

/-- Nothing that could be mistaken for an `else` stands behind a construct without one. -/
theorem yields_elseBranch {form : IfForm} {otherwise : Option Expr}
    (hform : form = .exitWith → otherwise = none)
    (h : ∀ e ∈ otherwise, Fits table numeral n (.expr e)) (hrest : Closes rest) :
    Yields f (inner.elseBranch form) (Written.elseBranch numeral otherwise ++ rest) rest
      fun r => (renumbered f).expr? r = unplaced.expr? otherwise := by
  -- A branch that is not there is told from the words behind, which do not start with `else`.
  cases otherwise with
  | none =>
    have hword : firstKind rest ≠ .elseWord := hrest.firstKind_ne (by decide)
    rw [Written.elseBranch, List.nil_append]
    refine Yields.kind_bind _ rfl ?_
    rw [decide_eq_false hword, Bool.and_false]
    exact Yields.pure rfl
  | some e =>
    cases form with
    | exitWith => cases hform rfl
    | thenBranch =>
      rw [Written.elseBranch]
      refine Yields.kind_bind .elseWord rfl ?_
      refine Yields.bind (yields_mark _) ?_
      intro _ _
      refine Yields.bind (hr.yields_branch (h e rfl) hrest.quiet) ?_
      intro e' he
      apply Yields.pure
      rw [Recast.expr?, Recast.expr?, he]

/-- The header of a loop over a range. The step may be left out. -/
theorem yields_rangeHeader (name : Name) {first last : Expr} {step : Option Expr}
    (hfirst : Fits table numeral n (.expr first)) (hlast : Fits table numeral n (.expr last))
    (hstep : ∀ e ∈ step, Fits table numeral n (.expr e)) (rest : List Word) :
    Yields f inner.rangeHeader
      (Written.forHeader numeral (.range name (some first) (some last) step) ++
        .mark .doWord :: rest)
      (.mark .doWord :: rest) fun r =>
        (renumbered f).forHeader r =
          unplaced.forHeader (.range name (some first) (some last) step) := by
  rw [Written.forHeader, Written.clause, Written.clause]
  simp only [List.cons_append, List.append_assoc]
  refine Yields.bind (yields_text _ _) ?_
  intro t hread
  rcases hread with ⟨_, hname⟩
  refine Yields.bind (hr.yields_requiredBound .fromWord _ hfirst (quiet_mark (by decide) _)) ?_
  intro r hread
  rcases hread with ⟨first', hr', hfirst'⟩
  subst hr'
  -- The words behind the second bound are those of the step, or else the `do`.
  have hquiet : Quiet (Written.clause numeral .stepWord step ++ .mark .doWord :: rest) := by
    cases step with
    | none =>
      rw [Written.clause]
      exact quiet_mark (by decide) _
    | some e =>
      rw [Written.clause]
      exact quiet_mark (by decide) _
  refine Yields.bind (hr.yields_requiredBound .toWord _ hlast hquiet) ?_
  intro r hread
  rcases hread with ⟨last', hr', hlast'⟩
  subst hr'
  cases step with
  | none =>
    rw [Written.clause, List.nil_append]
    refine Yields.kind_bind .doWord rfl ?_
    rw [if_neg (by decide)]
    refine Yields.pure ?_
    simp only [Recast.forHeader, Recast.expr?, hfirst', hlast', Recast.name, hname]
    rfl
  | some e =>
    rw [Written.clause]
    refine Yields.kind_bind .stepWord rfl ?_
    rw [if_pos rfl]
    refine Yields.bind (hr.yields_bound .stepWord (hstep e rfl) (quiet_mark (by decide) _)) ?_
    intro r hread
    rcases hread with ⟨step', hr', hstep'⟩
    apply Yields.pure
    subst hr'
    simp only [Recast.forHeader, Recast.expr?, hfirst', hlast', hstep', Recast.name, hname]
    rfl

/-- The header of a loop of three parts, which are the elements of an array. -/
theorem yields_classicHeader {init condition step : Option Expr}
    (hcondition : condition.isSome → init.isSome) (hstep : step.isSome → condition.isSome)
    (hpos : 1 ≤ n)
    (h : ∀ e ∈ (ForHeader.classic init condition step).parts,
      Fits table numeral (n - 1) (.expr e)) (rest : List Word) :
    Yields f inner.classicHeader
      (Written.forHeader numeral (.classic init condition step) ++ .mark .doWord :: rest)
      (.mark .doWord :: rest) fun r =>
        (renumbered f).forHeader r = unplaced.forHeader (.classic init condition step) := by
  rcases classic_cases numeral hcondition hstep with ⟨hwords, hinit, hcondition, hstep⟩
  rw [hwords, List.append_assoc, List.singleton_append]
  refine Yields.bind (yields_part (hr.header _ .unary _ hpos h (quiet_mark (by decide) _))) ?_
  intro r hread
  rcases hread with ⟨e', hr', es', span, he', hes⟩
  subst hr' he'
  refine Yields.pure ?_
  rw [exprs_eq_map, exprs_eq_map] at hes
  -- The parts are taken out of the array by position, as they were put into it.
  have helement (i : Nat) : (renumbered f).expr? es'[i]? = unplaced.expr?
      (init.toList ++ condition.toList ++ step.toList)[i]? := by
    rw [expr?_eq_map, expr?_eq_map, ← List.getElem?_map, ← List.getElem?_map, hes]
  rw [Recast.forHeader, Recast.forHeader, helement, helement, helement, hinit, hcondition, hstep]

/-! ## Control constructs -/

/-- An `if` is read back. -/
theorem yields_ifThen {condition branch : Expr} {form : IfForm} {otherwise : Option Expr}
    (hform : form = .exitWith → otherwise = none)
    (hcondition : Fits table numeral n (.expr condition))
    (hbranch : Fits table numeral n (.expr branch))
    (hotherwise : ∀ e ∈ otherwise, Fits table numeral n (.expr e)) (hrest : Closes rest)
    (span : Span) :
    Yields f inner.ifThen
      (Written.control numeral (.ifThen (some condition) form branch otherwise span) ++ rest) rest
      fun c => (renumbered f).control c =
        unplaced.control (.ifThen (some condition) form branch otherwise span) := by
  rw [Written.control, Written.part]
  simp only [List.cons_append, List.append_assoc]
  refine Yields.bind (yields_mark _) ?_
  intro start _
  have hthen : Quiet (.mark (branchWord form) :: (asBranch branch (Written.expr numeral branch) ++
      (Written.elseBranch numeral otherwise ++ rest))) := by
    cases form with
    | thenBranch => exact quiet_mark (by decide) _
    | exitWith => exact quiet_mark (by decide) _
  refine Yields.bind (yields_partOrSkip (hr.parens condition .unary _ hcondition hthen) _) ?_
  intro r hread
  rcases hread with ⟨condition', hr', hcondition'⟩
  subst hr'
  -- A branch ends at an `else`, or where the whole construct does.
  have helse : Quiet (Written.elseBranch numeral otherwise ++ rest) := by
    cases otherwise with
    | none =>
      rw [Written.elseBranch]
      exact hrest.quiet
    | some e =>
      rw [Written.elseBranch]
      exact quiet_mark (by decide) _
  refine Yields.bind (hr.yields_ifBranch form _ hbranch helse) ?_
  intro r hread
  rcases hread with ⟨hform', hbranch'⟩
  rcases r with ⟨form', branch'⟩
  obtain rfl : form' = form := hform'
  refine Yields.bind (hr.yields_elseBranch hform hotherwise hrest) ?_
  intro otherwise' hotherwise'
  refine Yields.spanFrom_bind ?_
  intro span'
  apply Yields.pure
  simp only [Recast.control, Recast.expr?, hcondition', hbranch', hotherwise']
  rfl

/-- What a loop and a `switch` have in common: an expression, and a block behind `do`. -/
theorem yields_partAndBody {b : Block} (he : Fits table numeral n (.expr e))
    (hb : Fits table numeral (n + 2) (.block b)) (start : Span)
    (build : Option Expr → Option Block → Span → Control) {P : Control → Prop}
    (hbuild : ∀ e' b' span, (renumbered f).expr? e' = unplaced.expr? (some e) →
      (renumbered f).block? b' = unplaced.block? (some b) → P (build e' b' span)) :
    Yields f (do
      let e' ← inner.partOrSkip .unary [.doWord]
      let b' ← inner.doBody
      return build e' b' (← spanFrom start))
      (inParens (Written.expr numeral e) ++ .mark .doWord :: (Written.block numeral b ++ rest))
      rest P := by
  refine Yields.bind (yields_partOrSkip (hr.parens e .unary _ he (quiet_mark (by decide) _)) _) ?_
  intro r hread
  rcases hread with ⟨e', hr', he'⟩
  refine Yields.bind (hr.yields_doBody hb) ?_
  intro b' hb'
  refine Yields.spanFrom_bind fun span => Yields.pure (hbuild _ _ _ ?_ hb')
  rw [hr', Recast.expr?, Recast.expr?, he']

/-- A `while` loop is read back. -/
theorem yields_whileDo {condition : Expr} {body : Block}
    (hcondition : Fits table numeral n (.expr condition))
    (hbody : Fits table numeral (n + 2) (.block body)) (span : Span) :
    Yields f inner.whileDo
      (Written.control numeral (.whileDo (some condition) (some body) span) ++ rest) rest
      fun c => (renumbered f).control c =
        unplaced.control (.whileDo (some condition) (some body) span) := by
  rw [Written.control, Written.part, Written.block?]
  simp only [List.cons_append, List.append_assoc]
  refine Yields.bind (yields_mark _) ?_
  intro start _
  refine hr.yields_partAndBody hcondition hbody start.span .whileDo ?_
  intro e' b' span' he hb
  rw [Recast.control, Recast.control, he, hb]
  rfl

/-- A `switch` is read back. -/
theorem yields_switchDo {subject : Expr} {body : Block}
    (hsubject : Fits table numeral n (.expr subject))
    (hbody : Fits table numeral (n + 2) (.block body)) (span : Span) :
    Yields f inner.switchDo
      (Written.control numeral (.switchDo (some subject) (some body) span) ++ rest) rest
      fun c => (renumbered f).control c =
        unplaced.control (.switchDo (some subject) (some body) span) := by
  rw [Written.control, Written.part, Written.block?]
  simp only [List.cons_append, List.append_assoc]
  refine Yields.bind (yields_mark _) ?_
  intro start _
  refine hr.yields_partAndBody hsubject hbody start.span .switchDo ?_
  intro e' b' span' he hb
  rw [Recast.control, Recast.control, he, hb]
  rfl

/-- A loop, given that its header is read from the words behind the first. -/
theorem yields_forDo {header : ForHeader} {body : Block} {span : Span} (hpos : 1 ≤ n)
    (h : PartsFit table numeral (n - 1) (.forDo header (some body) span)) :
    Yields f inner.forDo (Written.control numeral (.forDo header (some body) span) ++ rest) rest
      fun c => (renumbered f).control c = unplaced.control (.forDo header (some body) span) := by
  have hbody : Fits table numeral (n + 2) (.block body) :=
    (h.children (.block body) (by simp [Control.children])).mono (by omega)
  have hparts : ∀ e ∈ header.parts, Fits table numeral (n - 1) (.expr e) := fun e he =>
    h.children (.expr e) (by simp [Control.children, he])
  have hle : n - 1 ≤ n := Nat.sub_le n 1
  rw [Written.control, Written.block?]
  simp only [List.cons_append, List.append_assoc]
  refine Yields.bind (yields_mark _) ?_
  intro start _
  -- The body is read alike behind either sort of header.
  have hloop (header' : ForHeader)
      (hheader : (renumbered f).forHeader header' = unplaced.forHeader header) :
      Yields f (do
        let body ← inner.doBody
        return .forDo header' body (← spanFrom start.span))
        (.mark .doWord :: (Written.block numeral body ++ rest)) rest fun c =>
          (renumbered f).control c = unplaced.control (.forDo header (some body) span) := by
    refine Yields.bind (hr.yields_doBody hbody) ?_
    intro body' hbody'
    refine Yields.spanFrom_bind ?_
    intro span'
    apply Yields.pure
    simp only [Recast.control, hheader, hbody']
    rfl
  cases header with
  | missing => cases h.complete
  | range name first last step =>
    rcases h.complete with ⟨hfirst, hlast, _⟩
    rcases Option.isSome_iff_exists.1 hfirst with ⟨first, rfl⟩
    rcases Option.isSome_iff_exists.1 hlast with ⟨last, rfl⟩
    refine Yields.kind_bind .string (by rw [Written.forHeader]; rfl) ?_
    refine Yields.bind (hr.yields_rangeHeader name ?_ ?_ ?_ _) hloop
    · exact (hparts first (by simp [ForHeader.parts])).mono hle
    · exact (hparts last (by simp [ForHeader.parts])).mono hle
    · intro e he
      exact (hparts e (by simp [ForHeader.parts, Option.mem_def.1 he])).mono hle
  | classic init condition step =>
    rcases h.complete with ⟨hcondition, hstep, _⟩
    refine Yields.kind_bind .openBracket (by rw [Written.forHeader]; rfl) ?_
    exact Yields.bind (hr.yields_classicHeader hcondition hstep hpos hparts _) hloop

/-- The default of a `switch` is read back. -/
theorem yields_default {b : Option Block} (h : ∀ b' ∈ b, Fits table numeral (n + 2) (.block b'))
    (hrest : Closes rest) (span : Span) :
    Yields f inner.case (Written.control numeral (.case true none b span) ++ rest) rest fun c =>
      (renumbered f).control c = unplaced.control (.case true none b span) := by
  -- A colon would be read too, but none is written behind `default`.
  have hcolon : firstKind (Written.block? numeral b ++ rest) ≠ .colon := by
    cases b with
    | none => exact hrest.firstKind_ne (by decide)
    | some b =>
      rw [Written.block?, firstKind_block]
      decide
  rw [Written.control, Written.part]
  simp only [List.cons_append, List.nil_append]
  refine Yields.bind (yields_mark _) ?_
  intro start hstart
  rw [hstart]
  refine Yields.bind (P := fun r => r = none) (Yields.kind_bind _ rfl (Yields.pure rfl)) ?_
  intro r hr'
  subst hr'
  refine Yields.bind (yields_caseColon_none hcolon) ?_
  intro _ _
  refine Yields.bind (hr.yields_caseBlock h hrest) ?_
  intro b' hb'
  refine Yields.spanFrom_bind ?_
  intro span'
  apply Yields.pure
  simp only [Recast.control, Recast.expr?, hb']
  rfl

/-- A case of a `switch` is read back, also one without a value. -/
theorem yields_case {condition : Option Expr} {b : Option Block}
    (hcondition : ∀ e ∈ condition, Fits table numeral n (.expr e))
    (h : ∀ b' ∈ b, Fits table numeral (n + 2) (.block b')) (hrest : Closes rest) (span : Span) :
    Yields f inner.case (Written.control numeral (.case false condition b span) ++ rest) rest
      fun c => (renumbered f).control c =
        unplaced.control (.case false condition b span) := by
  rw [Written.control]
  simp only [List.cons_append, List.append_assoc]
  refine Yields.bind (yields_mark _) ?_
  intro start hstart
  rw [hstart]
  -- A value that is missing is told from the colon in its place.
  have hread : Yields f (inner.caseCondition false)
      (Written.part numeral condition ++ .mark .colon :: (Written.block? numeral b ++ rest))
      (.mark .colon :: (Written.block? numeral b ++ rest)) fun r =>
        (renumbered f).expr? r = unplaced.expr? condition := by
    cases condition with
    | none => exact Yields.kind_bind .colon rfl (Yields.pure rfl)
    | some e =>
      refine Yields.kind_bind .openParen rfl ?_
      refine Yields.mono (yields_partOrSkip (hr.parens e .lowest _ (hcondition e rfl)
        (quiet_mark (by decide) _)) _) ?_
      intro r hread
      rcases hread with ⟨e', hr', he'⟩
      rw [hr', Recast.expr?, Recast.expr?, he']
  refine Yields.bind hread ?_
  intro condition' hcondition'
  refine Yields.bind (yields_caseColon _) ?_
  intro _ _
  refine Yields.bind (hr.yields_caseBlock h hrest) ?_
  intro b' hb'
  refine Yields.spanFrom_bind ?_
  intro span'
  apply Yields.pure
  simp only [Recast.control, hcondition', hb']
  rfl

/-- Every control construct whose parts fit is read back. -/
theorem yields_control {c : Control} (hpos : 1 ≤ n) (h : PartsFit table numeral (n - 1) c)
    (hrest : Closes rest) :
    Yields f inner.control (Written.control numeral c ++ rest) rest fun c' =>
      (renumbered f).control c' = unplaced.control c := by
  have hexpr (e : Expr) (he : .expr e ∈ c.children) : Fits table numeral n (.expr e) :=
    (h.children _ he).mono (Nat.sub_le n 1)
  have hblock (b : Block) (hb : .block b ∈ c.children) : Fits table numeral (n + 2) (.block b) :=
    (h.children _ hb).mono (by omega)
  cases c with
  | ifThen condition form branch otherwise span =>
    rcases h.complete with ⟨hcondition, hform⟩
    rcases Option.isSome_iff_exists.1 hcondition with ⟨condition, rfl⟩
    refine Yields.kind_bind .ifWord (by rw [Written.control]; rfl) ?_
    refine hr.yields_ifThen hform (hexpr _ ?_) (hexpr _ ?_) (fun e he => hexpr e ?_) hrest span
    · simp [Control.children]
    · simp [Control.children]
    · simp [Control.children, Option.mem_def.1 he]
  | whileDo condition body span =>
    rcases h.complete with ⟨hcondition, hbody⟩
    rcases Option.isSome_iff_exists.1 hcondition with ⟨condition, rfl⟩
    rcases Option.isSome_iff_exists.1 hbody with ⟨body, rfl⟩
    refine Yields.kind_bind .whileWord (by rw [Written.control]; rfl) ?_
    refine hr.yields_whileDo (hexpr _ ?_) (hblock _ ?_) span
    · simp [Control.children]
    · simp [Control.children]
  | forDo header body span =>
    have hbody : body.isSome := by
      cases header with
      | missing => cases h.complete
      | range name first last step => exact h.complete.2.2
      | classic init condition step => exact h.complete.2.2
    rcases Option.isSome_iff_exists.1 hbody with ⟨body, rfl⟩
    refine Yields.kind_bind .forWord (by rw [Written.control]; rfl) ?_
    exact hr.yields_forDo hpos h
  | switchDo subject body span =>
    rcases h.complete with ⟨hsubject, hbody⟩
    rcases Option.isSome_iff_exists.1 hsubject with ⟨subject, rfl⟩
    rcases Option.isSome_iff_exists.1 hbody with ⟨body, rfl⟩
    refine Yields.kind_bind .switchWord (by rw [Written.control]; rfl) ?_
    refine hr.yields_switchDo (hexpr _ ?_) (hblock _ ?_) span
    · simp [Control.children]
    · simp [Control.children]
  | case isDefault condition b span =>
    cases isDefault with
    | true =>
      obtain rfl : condition = none := h.complete rfl
      refine Yields.kind_bind .defaultWord (by rw [Written.control]; rfl) ?_
      refine hr.yields_default (fun b' hb' => hblock b' ?_) hrest span
      simp [Control.children, Option.mem_def.1 hb']
    | false =>
      refine Yields.kind_bind .caseWord (by rw [Written.control]; rfl) ?_
      refine hr.yields_case (fun e he => hexpr e ?_) (fun b' hb' => hblock b' ?_) hrest span
      · simp [Control.children, Option.mem_def.1 he]
      · simp [Control.children, Option.mem_def.1 hb']

end Level.Reads

end Level

end Parse

end Sqf
