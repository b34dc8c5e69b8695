import Sqf.Proofs.Parse.Simulation

/-!
# All of the reading keeps a simulation

One lemma for each parser: started in related states, it gives the same result in
both runs up to the recast, and leaves related states. `Simulation.level` puts
them together by induction on the level.
-/

namespace Sqf.Parse

/-- An operator is no bracket and no separator. -/
theorem inStatement_of_tier {table : Table} {t : Token} {tier : Tier}
    (h : table.tier? t = some tier) : inStatement t.kind = true := by
  unfold Table.tier? at h
  split at h
  · next hid => simp [hid, inStatement]
  · unfold Tier.ofKind? at h
    split at h <;> simp_all [inStatement]

namespace Simulation

variable {table table' : Table} {r : Recast} {Rel : Nat → State → State → Prop}
  {Loops : Nat → Prop} (sim : Simulation table table' r Rel Loops) {inner inner' : Level}
  (levels : LevelsAgree r Rel inner inner') {k : Nat} {s s' : State}

include sim levels

/-! ## Control constructs -/

/-- A part of a statement that may be missing. -/
theorem agree_part (h : Rel k s s') (tier : Tier) :
    Agree (fun e e' => e = r.expr? e') (Rel k) (inner.part tier) (inner'.part tier) s s' := by
  refine Agree.bind (levels.expr tier h) ?_
  rintro _ _ t t' (⟨rfl⟩ | d) ht
  · exact Agree.pure rfl ht
  · refine Agree.bind (sim.agree_report ht rfl) ?_
    intro _ _ u u' _ hu
    exact Agree.pure rfl hu

/-- A part, or what is skipped in its place. -/
theorem agree_partOrSkip (h : Rel k s s') (tier : Tier) (stops : List Kind) :
    Agree (fun e e' => e = r.expr? e') (Rel k) (inner.partOrSkip tier stops)
      (inner'.partOrSkip tier stops) s s' := by
  refine Agree.bind (sim.agree_part levels h tier) ?_
  rintro _ e t t' rfl ht
  cases e with
  | none =>
    refine Agree.bind (sim.agree_skipUntil ht stops) ?_
    intro _ _ u u' _ hu
    exact Agree.pure rfl hu
  | some e => exact Agree.pure rfl ht

/-- What follows `then`, `else` or `exitWith`. -/
theorem agree_branch (h : Rel k s s') :
    Agree (fun e e' => e = r.expr e') (Rel k) inner.branch inner'.branch s s' := by
  refine Agree.bind (levels.expr .unary h) ?_
  rintro _ _ t t' (⟨rfl⟩ | d) ht
  · exact Agree.pure rfl ht
  · refine Agree.bind (sim.agree_report ht rfl) ?_
    intro _ _ u u' _ hu
    exact Agree.pure rfl hu

/-- A block that may be missing, with its diagnostic. -/
theorem agree_blockPart (h : Rel k s s') (expectation : String) :
    Agree (fun b b' => b = r.block? b') (Rel k) (inner.blockPart expectation)
      (inner'.blockPart expectation) s s' := by
  unfold Level.blockPart
  refine sim.agree_kind_bind h ?_
  split
  · next hk =>
    refine Agree.bind (levels.block h hk) ?_
    rintro _ b t t' rfl ht
    exact Agree.pure rfl ht
  · refine Agree.bind (sim.agree_reportUnexpected h _) ?_
    intro _ _ t t' _ ht
    exact Agree.pure rfl ht

/-- The body of a loop or of a `switch`. -/
theorem agree_doBody (h : Rel k s s') :
    Agree (fun b b' => b = r.block? b') (Rel k) inner.doBody inner'.doBody s s' := by
  unfold Level.doBody
  refine sim.agree_kind_bind h ?_
  split
  · next hk =>
    refine Agree.bind (sim.agree_advance h hk rfl) ?_
    intro _ _ t t' _ ht
    exact sim.agree_blockPart levels ht _
  · refine Agree.bind (sim.agree_reportUnexpected h _) ?_
    intro _ _ t t' _ ht
    exact Agree.pure rfl ht

/-- The branch of an `if`, with the keyword that tells its form. -/
theorem agree_ifBranch (h : Rel k s s') (hasCondition : Bool) :
    Agree (fun x x' => x = (x'.1, r.expr x'.2)) (Rel k) (inner.ifBranch hasCondition)
      (inner'.ifBranch hasCondition) s s' := by
  unfold Level.ifBranch
  refine sim.agree_kind_bind h ?_
  split
  · next hk =>
    refine Agree.bind (sim.agree_advance h hk rfl) ?_
    intro _ _ t t' _ ht
    refine Agree.bind (sim.agree_branch levels ht) ?_
    rintro _ e u u' rfl hu
    exact Agree.pure rfl hu
  · next hk =>
    refine Agree.bind (sim.agree_advance h hk rfl) ?_
    intro _ _ t t' _ ht
    refine Agree.bind (sim.agree_branch levels ht) ?_
    rintro _ e u u' rfl hu
    exact Agree.pure rfl hu
  · -- The placeholder stands where the next token does, so both runs give it the same place.
    have hplaceholder : ∀ {t t'}, Rel k t t' →
        Agree (fun x x' => x = (x'.1, r.expr x'.2)) (Rel k)
          (do return (IfForm.thenBranch, Expr.error (.point (← state).token.span.start)))
          (do return (IfForm.thenBranch, Expr.error (.point (← state).token.span.start)))
          t t' := by
      intro t t' ht
      refine ⟨?_, ht⟩
      simp [Recast.expr, sim.span, sim.place ht]
    cases hasCondition with
    | true =>
      refine Agree.bind (sim.agree_reportUnexpected h _) ?_
      intro _ _ t t' _ ht
      exact hplaceholder ht
    | false => exact hplaceholder h

/-- The other branch, which only some forms of `if` have. -/
theorem agree_elseBranch (h : Rel k s s') (form : IfForm) :
    Agree (fun e e' => e = r.expr? e') (Rel k) (inner.elseBranch form)
      (inner'.elseBranch form) s s' := by
  unfold Level.elseBranch
  refine sim.agree_kind_bind h ?_
  split
  · next hk =>
    simp only [Bool.and_eq_true, decide_eq_true_eq] at hk
    refine Agree.bind (sim.agree_advance h hk.2 rfl) ?_
    intro _ _ t t' _ ht
    refine Agree.bind (sim.agree_branch levels ht) ?_
    rintro _ e u u' rfl hu
    exact Agree.pure rfl hu
  · exact Agree.pure rfl h

/-- An `if`, part by part. -/
theorem agree_ifThen (h : Rel k s s') (hk : s.kind = .ifWord) :
    Agree (fun c c' => c = r.control c') (Rel k) inner.ifThen inner'.ifThen s s' := by
  refine Agree.bind (sim.agree_advance h hk rfl) ?_
  rintro _ start t t' rfl ht
  refine Agree.bind (sim.agree_partOrSkip levels ht _ _) ?_
  rintro _ condition u u' rfl hu
  -- Whether the branch may be reported missing depends on the condition being there.
  have hsome : (r.expr? condition).isSome = condition.isSome := by cases condition <;> rfl
  rw [hsome]
  refine Agree.bind (sim.agree_ifBranch levels hu _) ?_
  rintro _ ⟨form, thenPart⟩ v v' rfl hv
  refine Agree.bind (sim.agree_elseBranch levels hv form) ?_
  rintro _ otherwise w w' rfl hw
  refine Agree.bind (sim.agree_spanFrom hw (sim.span _)) ?_
  rintro _ span x x' rfl hx
  refine Agree.pure ?_ hx
  simp [Recast.control, sim.span]

/-- A `while` loop. -/
theorem agree_whileDo (h : Rel k s s') (hk : s.kind = .whileWord) :
    Agree (fun c c' => c = r.control c') (Rel k) inner.whileDo inner'.whileDo s s' := by
  refine Agree.bind (sim.agree_advance h hk rfl) ?_
  rintro _ start t t' rfl ht
  refine Agree.bind (sim.agree_partOrSkip levels ht _ _) ?_
  rintro _ condition u u' rfl hu
  refine Agree.bind (sim.agree_doBody levels hu) ?_
  rintro _ body v v' rfl hv
  refine Agree.bind (sim.agree_spanFrom hv (sim.span _)) ?_
  rintro _ span w w' rfl hw
  refine Agree.pure ?_ hw
  simp [Recast.control, sim.span]

/-- A bound of a range, behind its keyword. -/
theorem agree_bound (h : Rel k s s') {kind : Kind} (hk : s.kind = kind)
    (hin : inStatement kind = true) :
    Agree (fun e e' => e = r.expr? e') (Rel k) inner.bound inner'.bound s s' := by
  refine Agree.bind (sim.agree_advance h hk hin) ?_
  intro _ _ t t' _ ht
  exact sim.agree_partOrSkip levels ht _ _

/-- A bound that is reported when it is missing. -/
theorem agree_requiredBound (h : Rel k s s') {keyword : Kind} (expectation : String)
    (hin : inStatement keyword = true) :
    Agree (fun e e' => e = r.expr? e') (Rel k) (inner.requiredBound keyword expectation)
      (inner'.requiredBound keyword expectation) s s' := by
  unfold Level.requiredBound
  refine sim.agree_kind_bind h ?_
  split
  · next hk => exact sim.agree_bound levels h hk hin
  · refine Agree.bind (sim.agree_reportUnexpected h _) ?_
    intro _ _ t t' _ ht
    refine Agree.bind (sim.agree_skipUntil ht _) ?_
    intro _ _ u u' _ hu
    exact Agree.pure rfl hu

/-- A range: its name, its first and its last value, and a step that may be left out. -/
theorem agree_rangeHeader (h : Rel k s s') (hk : s.kind = .string) :
    Agree (fun x x' => x = r.forHeader x') (Rel k) inner.rangeHeader inner'.rangeHeader s s' := by
  refine Agree.bind (sim.agree_advance h hk rfl) ?_
  rintro _ token t t' rfl ht
  refine Agree.bind (sim.agree_requiredBound levels ht _ rfl) ?_
  rintro _ first u u' rfl hu
  -- Both runs stop at the same bound that is missing.
  cases first with
  | none => exact Agree.pure rfl hu
  | some first =>
    refine Agree.bind (sim.agree_requiredBound levels hu _ rfl) ?_
    rintro _ last v v' rfl hv
    cases last with
    | none => exact Agree.pure rfl hv
    | some last =>
      refine sim.agree_kind_bind hv ?_
      split
      · next hstep =>
        refine Agree.bind (sim.agree_bound levels hv hstep rfl) ?_
        rintro _ step w w' rfl hw
        exact Agree.pure rfl hw
      · exact Agree.pure rfl hv

/-- The header in brackets: its parts are those of one array. -/
theorem agree_classicHeader (h : Rel k s s') :
    Agree (fun x x' => x = r.forHeader x') (Rel k) inner.classicHeader inner'.classicHeader
      s s' := by
  refine Agree.bind (sim.agree_part levels h _) ?_
  rintro _ header t t' rfl ht
  -- Anything but an array is skipped up to the body.
  have hmissing : Agree (fun x x' => x = r.forHeader x') (Rel k)
      (do skipUntil [.doWord]; return .missing) (do skipUntil [.doWord]; return .missing)
      t t' := by
    refine Agree.bind (sim.agree_skipUntil ht _) ?_
    intro _ _ u u' _ hu
    exact Agree.pure rfl hu
  rcases header with _ | header
  · exact hmissing
  · cases header with
    | array elements span =>
      refine Agree.pure ?_ ht
      simp [Recast.forHeader, Recast.exprs_eq_map, Recast.expr?_eq_map]
    | _ => exact hmissing

/-- What a loop header is read by; the word behind `for` decides. -/
theorem agree_forDo (h : Rel k s s') (hk : s.kind = .forWord) :
    Agree (fun c c' => c = r.control c') (Rel k) inner.forDo inner'.forDo s s' := by
  refine Agree.bind (sim.agree_advance h hk rfl) ?_
  rintro _ start t t' rfl ht
  have hrest : ∀ {header header' u u'}, header = r.forHeader header' → Rel k u u' →
      Agree (fun c c' => c = r.control c') (Rel k)
        (do
          let body ← inner.doBody
          return .forDo header body (← spanFrom (r.token start).span))
        (do
          let body ← inner'.doBody
          return .forDo header' body (← spanFrom start.span)) u u' := by
    rintro _ header u u' rfl hu
    refine Agree.bind (sim.agree_doBody levels hu) ?_
    rintro _ body v v' rfl hv
    refine Agree.bind (sim.agree_spanFrom hv (sim.span _)) ?_
    rintro _ span w w' rfl hw
    refine Agree.pure ?_ hw
    simp [Recast.control, sim.span]
  refine sim.agree_kind_bind ht ?_
  split
  · next hstring =>
    refine Agree.bind (sim.agree_rangeHeader levels ht hstring) ?_
    intro _ _ u u' hheader hu
    exact hrest hheader hu
  · refine Agree.bind (sim.agree_classicHeader levels ht) ?_
    intro _ _ u u' hheader hu
    exact hrest hheader hu
  · refine Agree.bind (sim.agree_reportUnexpected ht _) ?_
    intro _ _ u u' _ hu
    refine Agree.bind (sim.agree_skipUntil hu _) ?_
    intro _ _ v v' _ hv
    exact hrest rfl hv

/-- A `switch`. -/
theorem agree_switchDo (h : Rel k s s') (hk : s.kind = .switchWord) :
    Agree (fun c c' => c = r.control c') (Rel k) inner.switchDo inner'.switchDo s s' := by
  refine Agree.bind (sim.agree_advance h hk rfl) ?_
  rintro _ start t t' rfl ht
  refine Agree.bind (sim.agree_partOrSkip levels ht _ _) ?_
  rintro _ subject u u' rfl hu
  refine Agree.bind (sim.agree_doBody levels hu) ?_
  rintro _ body v v' rfl hv
  refine Agree.bind (sim.agree_spanFrom hv (sim.span _)) ?_
  rintro _ span w w' rfl hw
  refine Agree.pure ?_ hw
  simp [Recast.control, sim.span]

/-- The value of a `case`, which `default` does not have. -/
theorem agree_caseCondition (h : Rel k s s') (isDefault : Bool) :
    Agree (fun e e' => e = r.expr? e') (Rel k) (inner.caseCondition isDefault)
      (inner'.caseCondition isDefault) s s' := by
  unfold Level.caseCondition
  refine sim.agree_kind_bind h ?_
  split
  · exact Agree.pure rfl h
  · exact sim.agree_partOrSkip levels h _ _

omit levels in
/-- The colon, which may be missing. -/
theorem agree_caseColon (h : Rel k s s') :
    Agree (fun _ _ => True) (Rel k) Level.caseColon Level.caseColon s s' := by
  unfold Level.caseColon
  refine sim.agree_kind_bind h ?_
  split
  · next hk =>
    refine Agree.bind (sim.agree_advance h hk rfl) ?_
    intro _ _ t t' _ ht
    exact Agree.pure trivial ht
  · exact Agree.pure trivial h

/-- The block of a case, which may be missing. -/
theorem agree_caseBlock (h : Rel k s s') :
    Agree (fun b b' => b = r.block? b') (Rel k) inner.caseBlock inner'.caseBlock s s' := by
  unfold Level.caseBlock
  refine sim.agree_kind_bind h ?_
  split
  · next hk =>
    refine Agree.bind (levels.block h hk) ?_
    rintro _ b t t' rfl ht
    exact Agree.pure rfl ht
  · exact Agree.pure rfl h

/-- A case of a `switch`, or its default. -/
theorem agree_case (h : Rel k s s') (hk : s.kind = .caseWord ∨ s.kind = .defaultWord) :
    Agree (fun c c' => c = r.control c') (Rel k) inner.case inner'.case s s' := by
  -- The keyword that the two kinds of case start with is read in both runs.
  have hadvance : Agree (fun t t' => t = r.token t') (Rel k) Parse.advance Parse.advance s s' := by
    rcases hk with hk | hk
    · exact sim.agree_advance h hk rfl
    · exact sim.agree_advance h hk rfl
  refine Agree.bind hadvance ?_
  rintro _ start t t' rfl ht
  refine Agree.bind (sim.agree_caseCondition levels ht _) ?_
  rintro _ condition u u' rfl hu
  refine Agree.bind (sim.agree_caseColon hu) ?_
  intro _ _ v v' _ hv
  refine Agree.bind (sim.agree_caseBlock levels hv) ?_
  rintro _ b w w' rfl hw
  refine Agree.bind (sim.agree_spanFrom hw (sim.span _)) ?_
  rintro _ span x x' rfl hx
  refine Agree.pure ?_ hx
  simp [Recast.control, Recast.token, sim.span]

/-- Any of the control structures, told by its keyword. -/
theorem agree_control (h : Rel k s s') (hk : startsControl s.kind = true) :
    Agree (fun c c' => c = r.control c') (Rel k) inner.control inner'.control s s' := by
  unfold Level.control
  refine sim.agree_kind_bind h ?_
  split
  · next hkind => exact sim.agree_ifThen levels h hkind
  · next hkind => exact sim.agree_whileDo levels h hkind
  · next hkind => exact sim.agree_forDo levels h hkind
  · next hkind => exact sim.agree_switchDo levels h hkind
  · next hif hwhile hfor hswitch =>
    refine sim.agree_case levels h ?_
    unfold startsControl at hk
    split at hk <;> simp_all

/-! ## Expressions -/

omit levels in
/-- A number. The two texts have to be read as the same value, or fail together. -/
theorem agreeOrFail_numberLiteral (h : Rel k s s') (hk : s.kind = .number) :
    AgreeOrFail r (fun e e' => e = r.expr e') (Rel k) Level.numberLiteral Level.numberLiteral
      s s' := by
  have htoken : s.token = r.token s'.token := sim.token h (by simp [hk])
  unfold Level.numberLiteral
  refine AgreeOrFail.state_bind ?_
  dsimp only
  rw [sim.numeral h hk]
  cases Numeral.read? s'.token.value with
  | none =>
    refine AgreeOrFail.throw ?_ h
    rw [htoken]
    rfl
  | some value =>
    refine AgreeOrFail.lift_bind (sim.agree_advance h hk rfl) ?_
    intro _ _ t t' _ ht
    refine AgreeOrFail.pure ?_ ht
    rw [htoken]
    rfl

omit levels in
/-- A command in front of its operand is recast part by part. -/
theorem applied_recast (command : Token) (operand : Expr) :
    applied (r.token command) (r.expr operand) = r.expr (applied command operand) := by
  simp [applied, Recast.expr, Recast.name, Recast.token, Recast.span_expr, sim.span]

/-- The operand of a unary command that has been read. -/
theorem agreeOrFail_operandOf (h : Rel k s s') (command : Token) :
    AgreeOrFail r (fun e e' => e = r.expr e') (Rel k)
      (do return applied (r.token command) (← inner.expr .unary))
      (do return applied command (← inner'.expr .unary)) s s' := by
  refine AgreeOrFail.bind (levels.expr .unary h) ?_
  rintro _ operand t t' rfl ht
  exact AgreeOrFail.pure (sim.applied_recast command operand) ht

/-- A command in front of its operand. -/
theorem agreeOrFail_prefixed (h : Rel k s s') {kind : Kind} (hk : s.kind = kind)
    (hin : inStatement kind = true) :
    AgreeOrFail r (fun e e' => e = r.expr e') (Rel k) inner.prefixed inner'.prefixed s s' := by
  refine AgreeOrFail.lift_bind (sim.agree_advance h hk hin) ?_
  rintro _ command t t' rfl ht
  exact sim.agreeOrFail_operandOf levels ht command

/-- A name: a variable or a command, as the tables have it. -/
theorem agreeOrFail_named (h : Rel k s s') (hk : s.kind = .identifier) :
    AgreeOrFail r (fun e e' => e = r.expr e') (Rel k) (inner.named table) (inner'.named table')
      s s' := by
  -- Whether a name is one of a local must be known of the token that was read.
  have hadvance : Agree (fun t t' => t = r.token t' ∧ isLocalName t.value = isLocalName t'.value)
      (Rel k) Parse.advance Parse.advance s s' := by
    rcases sim.agree_advance h hk rfl with ⟨hvalue, hnext⟩
    refine ⟨⟨hvalue, ?_⟩, hnext⟩
    rw [value_advance, value_advance]
    exact sim.isLocal h hk
  refine AgreeOrFail.lift_bind hadvance ?_
  rintro _ name t t' ⟨rfl, hlocal⟩ ht
  show AgreeOrFail r (fun e e' => e = r.expr e') (Rel k)
    (if !isLocalName (r.token name).value && table.startsOperand t.rest then do
        return applied (r.token name) (← inner.expr .unary)
      else return .name (r.name ⟨name.value, name.span⟩))
    (if !isLocalName name.value && table'.startsOperand t'.rest then do
        return applied name (← inner'.expr .unary)
      else return .name ⟨name.value, name.span⟩) t t'
  rw [hlocal, sim.startsOperand ht]
  split
  · exact sim.agreeOrFail_operandOf levels ht name
  · exact AgreeOrFail.pure rfl ht

/-- An expression in parentheses. -/
theorem agreeOrFail_grouped (h : Rel k s s') (hk : s.kind = .openParen) :
    AgreeOrFail r (fun e e' => e = r.expr e') (Rel k) inner.grouped inner'.grouped s s' := by
  refine AgreeOrFail.lift_bind (sim.agree_advance h hk rfl) ?_
  intro _ _ t t' _ ht
  refine AgreeOrFail.bind (levels.expr .lowest ht) ?_
  rintro _ e u u' rfl hu
  refine AgreeOrFail.bind (sim.agreeOrFail_expect hu rfl _) ?_
  intro _ _ v v' _ hv
  exact AgreeOrFail.pure rfl hv

/-- Items are read one after the other in both runs; the recursion is over the tokens left. -/
theorem agreeOrFail_commaList {s s' : State} (h : Rel k s s') (expectation : String)
    (tier : Tier) :
    AgreeOrFail r (fun es es' => es = r.exprs es') (Rel k)
      (commaList .closeBracket expectation (inner.expr tier))
      (commaList .closeBracket expectation (inner'.expr tier)) s s' := by
  rw [commaList_eq (by decide) expectation (inner.expr tier),
    commaList_eq (by decide) expectation (inner'.expr tier)]
  refine sim.agreeOrFail_kind_bind h ?_
  split
  · exact AgreeOrFail.pure rfl h
  · refine (levels.expr tier h).bind_run ?_
    rintro _ e - rfl ht
    refine sim.agreeOrFail_kind_bind ht ?_
    split
    · next hcomma =>
      have hle := length_next_le (inner.expr tier).run s
      have hread := length_advance (s := ((inner.expr tier).run s).next) (by simp [hcomma])
      rcases sim.agree_advance ht hcomma rfl with ⟨-, hnext⟩
      show AgreeOrFail r (fun es es' => es = r.exprs es') (Rel k)
        (do return r.expr e :: (← commaList .closeBracket expectation (inner.expr tier)))
        (do return e :: (← commaList .closeBracket expectation (inner'.expr tier)))
        (Parse.advance _).next (Parse.advance _).next
      refine AgreeOrFail.bind (agreeOrFail_commaList hnext expectation tier) ?_
      rintro _ es v v' rfl hv
      exact AgreeOrFail.pure rfl hv
    · split
      · exact AgreeOrFail.pure rfl ht
      · exact sim.agreeOrFail_failUnexpected ht _
termination_by s.rest.length

/-- An array. -/
theorem agreeOrFail_arrayLiteral (h : Rel k s s') (hk : s.kind = .openBracket) :
    AgreeOrFail r (fun e e' => e = r.expr e') (Rel k) inner.arrayLiteral inner'.arrayLiteral
      s s' := by
  refine AgreeOrFail.lift_bind (sim.agree_advance h hk rfl) ?_
  rintro _ start t t' rfl ht
  refine (sim.agreeOrFail_commaList levels ht _ _).bind_run ?_
  rintro _ elements hvalue rfl hu
  have hclose := commaList_closed (by decide) _ _ t _ hvalue
  refine AgreeOrFail.lift_bind (sim.agree_advance hu hclose rfl) ?_
  intro _ _ v v' _ hv
  refine AgreeOrFail.lift_bind (sim.agree_spanFrom hv (sim.span _)) ?_
  rintro _ span w w' rfl hw
  refine AgreeOrFail.pure ?_ hw
  simp [Recast.expr, sim.span]

/-- Any operand, told by its first token. -/
theorem agreeOrFail_operand (h : Rel k s s') :
    AgreeOrFail r (fun e e' => e = r.expr e') (Rel k) (inner.operand table)
      (inner'.operand table') s s' := by
  unfold Level.operand
  refine sim.agreeOrFail_kind_bind h ?_
  split
  · next hk => exact sim.agreeOrFail_numberLiteral h hk
  · next hk =>
    refine AgreeOrFail.lift_bind (sim.agree_advance h hk rfl) ?_
    rintro _ t u u' rfl hu
    exact AgreeOrFail.pure rfl hu
  · next hk => exact sim.agreeOrFail_named levels h hk
  · next hk => exact sim.agreeOrFail_grouped levels h hk
  · next hk => exact sim.agreeOrFail_arrayLiteral levels h hk
  · next hk =>
    refine AgreeOrFail.lift_bind (levels.block h hk) ?_
    rintro _ b t t' rfl ht
    exact AgreeOrFail.pure rfl ht
  -- What is left may start a control structure; nothing else is an operand.
  case h_11 =>
    split
    · next hk =>
      refine AgreeOrFail.lift_bind (sim.agree_control levels h hk) ?_
      rintro _ c t t' rfl ht
      exact AgreeOrFail.pure rfl ht
    · exact sim.agreeOrFail_failUnexpected h _
  all_goals
    next hk =>
      exact sim.agreeOrFail_prefixed levels h hk rfl

omit levels in
/-- An operator joins two operands the same way in both trees. -/
theorem joined_recast (op : Token) (left right : Expr) :
    joined (r.token op) (r.expr left) (r.expr right) = r.expr (joined op left right) := by
  simp [joined, Recast.expr, Recast.name, Recast.token, Recast.span_expr, sim.span]

/-- Operators are taken one after the other in both runs; the recursion is over the tokens
left. -/
theorem agreeOrFail_operators {s s' : State} (h : Rel k s s') (limit : Tier) (left : Expr) :
    AgreeOrFail r (fun e e' => e = r.expr e') (Rel k)
      (inner.operators table limit (r.expr left)) (inner'.operators table' limit left) s s' := by
  rw [operators_eq inner, operators_eq inner']
  refine AgreeOrFail.state_bind ?_
  -- The end of input may have different texts in the two runs, but is no operator in either.
  by_cases hend : s.kind = .endOfInput
  · have hend' : s'.kind = .endOfInput := by rw [← sim.kind h, hend]
    rw [tier?_endOfInput table hend, tier?_endOfInput table' hend']
    exact AgreeOrFail.pure rfl h
  · rw [← sim.tier h hend]
    split
    · exact AgreeOrFail.pure rfl h
    · next tier htier =>
      split
      · have hread := length_advance hend
        rcases sim.agree_advance h rfl (inStatement_of_tier htier) with ⟨htoken, hnext⟩
        have hle := length_next_le (inner.expr tier).run (Parse.advance s).next
        show AgreeOrFail r (fun e e' => e = r.expr e') (Rel k)
          (do
            let right ← inner.expr tier
            inner.operators table limit (joined (Parse.advance s).value (r.expr left) right))
          (do
            let right ← inner'.expr tier
            inner'.operators table' limit (joined (Parse.advance s').value left right))
          (Parse.advance s).next (Parse.advance s').next
        refine (levels.expr tier hnext).bind_run ?_
        rintro _ right - rfl hu
        rw [htoken, sim.joined_recast]
        exact agreeOrFail_operators hu limit _
      · exact AgreeOrFail.pure rfl h
termination_by s.rest.length

/-- An expression up to a tier. -/
theorem agreeOrFail_expression (h : Rel k s s') (limit : Tier) :
    AgreeOrFail r (fun e e' => e = r.expr e') (Rel k) (inner.expression table limit)
      (inner'.expression table' limit) s s' := by
  refine AgreeOrFail.bind (sim.agreeOrFail_operand levels h) ?_
  rintro _ left t t' rfl ht
  exact sim.agreeOrFail_operators levels ht limit left

/-! ## Statements -/

/-- An assignment, with or without `private`. -/
theorem agreeOrFail_assignment (h : Rel k s s') (hk : s.kind = .identifier) (isPrivate : Bool)
    {start start' : Span} (hstart : start = start') :
    AgreeOrFail r (fun a a' => a = r.stmt a') (Rel k) (inner.assignment isPrivate start)
      (inner'.assignment isPrivate start') s s' := by
  subst hstart
  refine AgreeOrFail.lift_bind (sim.agree_advance h hk rfl) ?_
  rintro _ name t t' rfl ht
  refine AgreeOrFail.bind (sim.agreeOrFail_expect ht rfl _) ?_
  intro _ _ u u' _ hu
  refine AgreeOrFail.bind (levels.expr .lowest hu) ?_
  rintro _ value v v' rfl hv
  refine AgreeOrFail.pure ?_ hv
  simp [Recast.stmt, Recast.name, Recast.token, Recast.span_expr, sim.span]

omit sim in
/-- An expression that stands as a statement. -/
theorem agreeOrFail_expressionStmt (h : Rel k s s') :
    AgreeOrFail r (fun a a' => a = r.stmt a') (Rel k) inner.expressionStmt
      inner'.expressionStmt s s' := by
  refine AgreeOrFail.bind (levels.expr .lowest h) ?_
  rintro _ e t t' rfl ht
  exact AgreeOrFail.pure rfl ht

/-- Any statement. -/
theorem agreeOrFail_statement (h : Rel k s s') :
    AgreeOrFail r (fun a a' => a = r.stmt a') (Rel k) inner.statement inner'.statement s s' := by
  show AgreeOrFail r (fun a a' => a = r.stmt a') (Rel k)
    (if s.kind = .privateWord && s.kindAt 1 = .identifier && s.kindAt 2 = .assignment then do
        let start ← (Parse.advance : Parse Token)
        inner.assignment true start.span
      else if startsControl s.kind then do
        let c ← (inner.control : Parse Control)
        return .control c
      else if s.kind = .identifier && s.kindAt 1 = .assignment then
        inner.assignment false s.token.span
      else inner.expressionStmt)
    (if s'.kind = .privateWord && s'.kindAt 1 = .identifier && s'.kindAt 2 = .assignment then do
        let start ← (Parse.advance : Parse Token)
        inner'.assignment true start.span
      else if startsControl s'.kind then do
        let c ← (inner'.control : Parse Control)
        return .control c
      else if s'.kind = .identifier && s'.kindAt 1 = .assignment then
        inner'.assignment false s'.token.span
      else inner'.expressionStmt) s s'
  -- The second and third token are looked at only behind a first one that calls for it.
  have hprivate : (s.kind = .privateWord && s.kindAt 1 = .identifier &&
      s.kindAt 2 = .assignment) = (s.kind = .privateWord && s'.kindAt 1 = .identifier &&
      s'.kindAt 2 = .assignment) := by
    rw [Bool.eq_iff_iff]
    simp only [Bool.and_eq_true, decide_eq_true_eq, and_assoc]
    exact and_congr_right (sim.assignsPrivately h)
  have hplain : (s.kind = .identifier && s.kindAt 1 = .assignment) =
      (s.kind = .identifier && s'.kindAt 1 = .assignment) := by
    rw [Bool.eq_iff_iff]
    simp only [Bool.and_eq_true, decide_eq_true_eq]
    exact and_congr_right (sim.assigns h)
  rw [← sim.kind h, ← hprivate, ← hplain]
  split
  · next hk =>
    simp only [Bool.and_eq_true, decide_eq_true_eq, and_assoc] at hk
    -- The kind of the second token is needed again when the name is read.
    have hname : (Parse.advance s).next.kind = .identifier := by
      rw [kind_next_advance (by simp [hk.1]), hk.2.1]
    rcases sim.agree_advance h hk.1 rfl with ⟨hstart, hnext⟩
    refine AgreeOrFail.lift_bind (V := fun t t' => t = r.token t')
      (R := fun t t' => Rel k t t' ∧ t.kind = .identifier) ⟨hstart, hnext, hname⟩ ?_
    rintro _ start t t' rfl ⟨ht, hname⟩
    exact sim.agreeOrFail_assignment levels ht hname true (sim.span _)
  · split
    · next hk =>
      refine AgreeOrFail.lift_bind (sim.agree_control levels h hk) ?_
      rintro _ c t t' rfl ht
      exact AgreeOrFail.pure rfl ht
    · split
      · next hk =>
        simp only [Bool.and_eq_true, decide_eq_true_eq] at hk
        exact sim.agreeOrFail_assignment levels h hk.1 false (sim.place h)
      · exact agreeOrFail_expressionStmt levels h

omit levels in
/-- What ends a statement. A separator can only be read where loops are related. -/
theorem agree_separator (hloops : Loops k) (h : Rel k s s') :
    Agree (fun _ _ => True) (Rel k) Level.separator Level.separator s s' := by
  unfold Level.separator
  apply Agree.state_bind
  rw [← sim.kind h]
  split
  · next hseparator =>
    have hne : ∀ k : Kind, k.isSeparator = false → s.kind ≠ k := by
      rintro k hk rfl
      rw [hk] at hseparator
      cases hseparator
    exact ⟨trivial, sim.advance h (hne _ rfl) (hne _ rfl) (hne _ rfl) fun _ => hloops⟩
  · split
    · next hmissing =>
      simp only [ne_eq, Bool.and_eq_true, decide_eq_true_eq] at hmissing
      refine sim.agree_report h ?_
      rw [sim.text h hmissing.1, sim.place h]
      simp [Recast.diagnostic, Recast.cause, sim.span]
    · exact Agree.pure trivial h

/-- A statement, or what is skipped for it. -/
theorem agree_statementOrError (hloops : Loops k) (h : Rel k s s') :
    Agree (fun a a' => a = r.stmt a') (Rel k) inner.statementOrError inner'.statementOrError
      s s' := by
  apply Agree.state_bind
  refine Agree.bind (sim.agreeOrFail_statement levels h).suffix ?_
  rintro _ _ t t' (⟨rfl⟩ | d) ⟨ht, hsuffix⟩
  · refine Agree.bind (sim.agree_separator hloops ht) ?_
    intro _ _ u u' _ hu
    exact Agree.pure rfl hu
  · refine Agree.bind (V := fun _ _ => True) (R := fun u u' => Rel k u u' ∧ u.rest <:+ s.rest)
      ⟨trivial, sim.report d ht, hsuffix⟩ ?_
    rintro _ _ u u' - ⟨hu, hsuffix⟩
    refine Agree.bind (sim.agree_synchronize hloops h hu hsuffix) ?_
    rintro _ span v v' rfl hv
    refine Agree.pure ?_ hv
    simp [Recast.stmt, sim.span]

/-- A turn of the loop over statements. Outside of any block it passes a closing brace, which
the relation has to allow for. -/
theorem agree_turn (hloops : Loops k) (h : Rel k s s') (enclosure : Enclosure)
    (hcurly : enclosure = .file → ∀ {t t'}, Rel k t t' → t.kind = .closeCurly →
      Rel k (Parse.advance t).next (Parse.advance t').next) :
    Agree (fun a a' => a = a'.map r.stmt) (Rel k) (inner.turn enclosure)
      (inner'.turn enclosure) s s' := by
  apply Agree.state_bind
  refine Agree.bind (V := fun _ _ => True) ⟨trivial, sim.dropSeparators hloops h⟩ ?_
  rintro _ _ t t' - ht
  unfold Level.statementOrNone
  refine sim.agree_kind_bind ht ?_
  split
  · exact Agree.pure rfl ht
  · next hk =>
    cases enclosure with
    | block => exact Agree.pure rfl ht
    | file =>
      have hne : t.kind ≠ .endOfInput := by simp [hk]
      refine Agree.bind (V := fun u u' => u = r.token u') (R := Rel k) ⟨?_, hcurly rfl ht hk⟩ ?_
      · rw [value_advance, value_advance]
        exact sim.token ht hne
      rintro _ u v v' rfl hv
      refine Agree.bind (sim.agree_report hv rfl) ?_
      rintro _ _ w w' - hw
      exact Agree.pure rfl hw
  · refine Agree.bind (sim.agree_statementOrError levels hloops ht) ?_
    rintro _ stmt u u' rfl hu
    exact Agree.pure rfl hu

omit levels in
/-- A loop agrees if its turns do. -/
theorem agree_many {turn turn' : Parse (Option Stmt)}
    (hturn : ∀ {s s'}, Rel k s s' → Agree (fun a a' => a = a'.map r.stmt) (Rel k) turn turn' s s')
    {s s' : State} (h : Rel k s s') :
    Agree (fun a a' => a = r.stmts a') (Rel k) (many turn) (many turn') s s' := by
  rw [many_eq turn, many_eq turn']
  apply Agree.state_bind
  refine Agree.bind (hturn h) ?_
  rintro _ stmt t t' rfl ht
  cases stmt with
  | none => exact Agree.pure rfl ht
  | some stmt =>
    apply Agree.state_bind
    -- Both runs are cut off or neither is, as their tokens get fewer together.
    by_cases hlt : t.rest.length < s.rest.length
    · rw [if_pos hlt, if_pos ((sim.shorter h ht).1 hlt)]
      refine Agree.bind (agree_many hturn ht) ?_
      rintro _ stmts u u' rfl hu
      exact Agree.pure rfl hu
    · rw [if_neg hlt, if_neg fun hlt' => hlt ((sim.shorter h ht).2 hlt')]
      refine Agree.bind (V := fun _ _ => True) (p := Parse.stall) (q := Parse.stall) (R := Rel k)
        ⟨trivial, sim.stall ht⟩ ?_
      rintro _ _ u u' - hu
      exact Agree.pure rfl hu
termination_by s.rest.length

omit levels in
/-- The brace that closes a block: behind it the runs are one brace less deep. -/
theorem agree_closingBrace (h : Rel (k + 1) s s') :
    Agree (fun _ _ => True) (Rel k) Level.closingBrace Level.closingBrace s s' := by
  unfold Level.closingBrace
  refine sim.agree_kind_bind h ?_
  split
  · next hk => exact ⟨trivial, sim.leave h hk⟩
  · exact sim.agree_reportUnexpected (sim.weaken h) _

/-- All statements of a file or of a block, by turns. -/
theorem agree_statements (hloops : Loops k) (h : Rel k s s') (enclosure : Enclosure)
    (hcurly : enclosure = .file → ∀ {t t'}, Rel k t t' → t.kind = .closeCurly →
      Rel k (Parse.advance t).next (Parse.advance t').next) :
    Agree (fun a a' => a = r.stmts a') (Rel k) (inner.statements enclosure)
      (inner'.statements enclosure) s s' :=
  sim.agree_many (fun ht => sim.agree_turn levels hloops ht enclosure hcurly) h

/-- A block, between its braces. -/
theorem agree_codeBlock (h : Rel k s s') (hk : s.kind = .openCurly) :
    Agree (fun b b' => b = r.block b') (Rel k) inner.codeBlock inner'.codeBlock s s' := by
  have hne : s.kind ≠ .endOfInput := by simp [hk]
  -- The brace leads into the block, where the relation is one level further in.
  refine Agree.bind (V := fun t t' => t = r.token t') (R := Rel (k + 1)) ⟨?_, sim.enter h hk⟩ ?_
  · rw [value_advance, value_advance]
    exact sim.token h hne
  rintro _ start t t' rfl ht
  refine Agree.bind (V := fun i i' => i = r.id i') (R := Rel (k + 1))
    ⟨sim.nextId ht, sim.freshId ht⟩ ?_
  rintro _ id u u' rfl hu
  refine Agree.bind (sim.agree_statements levels (sim.loops_succ k) hu .block nofun) ?_
  rintro _ stmts v v' rfl hv
  refine Agree.bind (sim.agree_closingBrace hv) ?_
  rintro _ _ w w' - hw
  refine Agree.bind (sim.agree_spanFrom hw (sim.span _)) ?_
  rintro _ span x x' rfl hx
  refine Agree.pure ?_ hx
  simp [Recast.block, sim.span]

/-! ## Levels -/

omit levels in
/-- What is nested too deep is refused in both runs. -/
theorem agreeOrFail_deepExpr (h : Rel k s s') :
    AgreeOrFail r (fun e e' => e = r.expr e') (Rel k) Level.deepExpr Level.deepExpr s s' := by
  refine AgreeOrFail.lift_bind (sim.agree_skipNested h) ?_
  rintro _ span t t' rfl ht
  refine AgreeOrFail.pure ?_ ht
  simp [Recast.expr, sim.span]

omit levels in
/-- A block that is nested too deep is skipped in both runs. -/
theorem agree_deepBlock (h : Rel k s s') :
    Agree (fun b b' => b = r.block b') (Rel k) Level.deepBlock Level.deepBlock s s' := by
  apply Agree.state_bind
  refine Agree.bind (V := fun i i' => i = r.id i') (R := Rel k)
    ⟨sim.nextId h, sim.freshId h⟩ ?_
  rintro _ id t t' rfl ht
  refine Agree.bind (sim.agree_skipNested ht) ?_
  rintro _ span u u' rfl hu
  refine Agree.pure ?_ hu
  simp [Recast.block, Recast.stmts, Recast.stmt, sim.span, sim.place h]

omit levels in
/-- The parsers of every level agree. -/
theorem level (n : Nat) : LevelsAgree r Rel (Parse.level table n) (Parse.level table' n) := by
  induction n with
  | zero =>
    exact ⟨fun _ h => sim.agreeOrFail_deepExpr h, fun h _ => sim.agree_deepBlock h⟩
  | succ n ih =>
    exact ⟨fun tier h => sim.agreeOrFail_expression ih h tier,
      fun h hk => sim.agree_codeBlock ih h hk⟩

end Simulation

end Sqf.Parse
