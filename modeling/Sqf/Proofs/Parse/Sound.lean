import Sqf.Proofs.Parse.Invariant
import Sqf.Proofs.Parse.KeepsExpr
import Sqf.Proofs.Tree.Marked
import Sqf.Proofs.Tree.Turns

/-!
# What every tree has that is read

`Sound I k n` says of a node that the spans and the leaves of its tree are as an invariant
wants them, and that no way down from it takes more than `k` turns. Each parser gives
sound trees if the parsers for what stands inside do. One level of nesting is two more
turns: one into a block, and one from the block to its statements.
-/

namespace Sqf.Parse

/-- The spans and the leaves of a tree are as the invariant says, and no way down takes more than
`k` turns. -/
structure Sound (I : Invariant) (k : Nat) (n : Node) : Prop where
  marked : n.Marked I.span I.leaf
  turns : n.turns ≤ k

namespace Sound

variable {I : Invariant} {j k : Nat} {m n : Node}

/-- A longer way down may be allowed. -/
theorem mono (h : Sound I j n) (hjk : j ≤ k) : Sound I k n :=
  ⟨h.marked, Nat.le_trans h.turns hjk⟩

theorem span (h : Sound I k n) : I.span n.span := h.marked.spanSelf

/-- The tree of a child is as sound as that of the node. -/
theorem child (h : Sound I k n) (hm : m ∈ n.children) : Sound I k m :=
  ⟨h.marked.child hm, Nat.le_trans (Node.turns_le_of_mem_children hm) h.turns⟩

/-- A node is sound by itself and by its children. Only the left operand of an operator may take
as many turns as the node. -/
theorem of_children (hspan : I.span n.span) (hown : ∀ l ∈ n.ownLeaves, I.leaf l)
    (hleft : ∀ m ∈ n.leftOperand, Sound I (k + 1) m) (hbranches : ∀ m ∈ n.branches, Sound I k m) :
    Sound I (k + 1) n := by
  refine ⟨.of_children hspan hown fun m hm => ?_, Node.turns_le_iff.2 ⟨fun m hm =>
    (hleft m hm).turns, fun m hm => Nat.lt_succ_of_le (hbranches m hm).turns⟩⟩
  rcases Node.mem_children_iff.1 hm with hm | hm
  · exact (hleft m hm).marked
  · exact (hbranches m hm).marked

/-- The same of a node that is no operator. -/
theorem of_branches (hspan : I.span n.span) (hown : ∀ l ∈ n.ownLeaves, I.leaf l)
    (hleft : n.leftOperand = []) (hchildren : ∀ m ∈ n.children, Sound I k m) :
    Sound I (k + 1) n := by
  refine of_children hspan hown (by simp [hleft]) fun m hm => hchildren m ?_
  exact Node.mem_children_iff.2 (.inr hm)

/-- A node without children takes no turns. -/
theorem of_leaf (hspan : I.span n.span) (hown : ∀ l ∈ n.ownLeaves, I.leaf l)
    (hchildren : n.children = []) : Sound I k n := by
  have hparts := Node.children_eq n
  rw [hchildren] at hparts
  obtain ⟨hleft, hbranches⟩ := List.append_eq_nil_iff.1 hparts.symm
  refine ⟨.of_children hspan hown (by simp [hchildren]), Node.turns_le_iff.2 ?_⟩
  exact ⟨by simp [hleft], by simp [hbranches]⟩

end Sound

/-- A construct is sound, be it a statement or an expression: its parts take `k` turns. -/
structure ControlSound (I : Invariant) (k : Nat) (c : Control) : Prop where
  span : I.span c.span
  leaves : ∀ l ∈ c.ownLeaves, I.leaf l
  parts : ∀ m ∈ c.children, Sound I k m

/-- A loop header is sound. -/
structure HeaderSound (I : Invariant) (k : Nat) (header : ForHeader) : Prop where
  leaves : ∀ l ∈ header.ownLeaves, I.leaf l
  parts : ∀ e ∈ header.parts, Sound I k (.expr e)

/-- The parsers for what stands inside of a construct give sound trees. -/
structure LevelSound (I : Invariant) (k : Nat) (inner : Level) : Prop where
  expr : ∀ tier s, I.state s →
    UpholdsOrFails I (inner.expr tier) (fun e => Sound I k (.expr e)) s
  block : ∀ s, I.state s → Upholds I inner.block (fun b => Sound I (k + 1) (.block b)) s

namespace Level

variable {I : Invariant} {k : Nat} {inner : Level} (levels : LevelSound I k inner) {s : State}
  (hs : I.state s)

/-! ## Parts of constructs -/

include levels hs

/-- A part of a statement, if there is one. -/
theorem part_sound (tier : Tier) :
    Upholds I (inner.part tier) (fun found => ∀ e ∈ found, Sound I k (.expr e)) s := by
  refine Upholds.bind (levels.expr tier s hs) fun outcome t ht houtcome => ?_
  cases outcome with
  | ok e => exact Upholds.pure ht (by rintro _ ⟨⟩; exact houtcome)
  | error d => exact Upholds.report_bind ht houtcome fun u hu => Upholds.pure hu nofun

/-- A part, or what is skipped in its place. -/
theorem partOrSkip_sound (tier : Tier) (stops : List Kind) :
    Upholds I (inner.partOrSkip tier stops) (fun found => ∀ e ∈ found, Sound I k (.expr e)) s := by
  refine Upholds.bind (part_sound levels hs tier) fun found t ht hfound => ?_
  cases found with
  | none => exact Upholds.skipUntil_bind ht fun u hu => Upholds.pure hu hfound
  | some e => exact Upholds.pure ht hfound

/-- A branch, or its placeholder. -/
theorem branch_sound : Upholds I inner.branch (fun e => Sound I k (.expr e)) s := by
  refine Upholds.bind (levels.expr .unary s hs) fun outcome t ht houtcome => ?_
  cases outcome with
  | ok e => exact Upholds.pure ht houtcome
  | error d =>
    refine Upholds.report_bind ht houtcome fun u hu => Upholds.pure hu ?_
    exact Sound.of_leaf (I.spanReported houtcome) nofun rfl

/-- A block that may be missing. It is a turn deeper than what stands in it. -/
theorem blockPart_sound (expectation : String) :
    Upholds I (inner.blockPart expectation)
      (fun found => ∀ b ∈ found, Sound I (k + 1) (.block b)) s := by
  unfold blockPart
  refine Upholds.kind_bind ?_
  split
  · refine Upholds.bind (levels.block s hs) fun b t ht hb => Upholds.pure ht ?_
    rintro _ ⟨⟩
    exact hb
  · exact Upholds.reportUnexpected_bind hs fun t ht => Upholds.pure ht nofun

/-- The body of a loop or of a `switch`. -/
theorem doBody_sound :
    Upholds I inner.doBody (fun found => ∀ b ∈ found, Sound I (k + 1) (.block b)) s := by
  unfold doBody
  refine Upholds.kind_bind ?_
  split
  · exact Upholds.advance_bind hs fun ht => blockPart_sound levels ht _
  · exact Upholds.reportUnexpected_bind hs fun t ht => Upholds.pure ht nofun

/-- The branch of an `if`. Where its keyword is missing, a placeholder stands at the next token. -/
theorem ifBranch_sound (hasCondition : Bool) :
    Upholds I (inner.ifBranch hasCondition) (fun found => Sound I k (.expr found.2)) s := by
  have hkeyword (form : IfForm) {t : State} (ht : I.state t) :
      Upholds I (do return (form, ← inner.branch))
        (fun (found : IfForm × Expr) => Sound I k (.expr found.2)) t :=
    Upholds.bind (branch_sound levels ht) fun e u hu he => Upholds.pure hu he
  have hmissing {t : State} (ht : I.state t) :
      Upholds I (do return (.thenBranch, .error (.point (← state).token.span.start)))
        (fun (found : IfForm × Expr) => Sound I k (.expr found.2)) t :=
    Upholds.state_bind (Upholds.pure ht
      (Sound.of_leaf (I.pointStart (I.token ht)) nofun rfl))
  unfold ifBranch
  refine Upholds.kind_bind ?_
  split
  · exact Upholds.advance_bind hs fun ht => hkeyword .thenBranch ht
  · exact Upholds.advance_bind hs fun ht => hkeyword .exitWith ht
  · cases hasCondition with
    | true => exact Upholds.reportUnexpected_bind hs fun t ht => hmissing ht
    | false => exact hmissing hs

/-- The other branch of an `if`. -/
theorem elseBranch_sound (form : IfForm) :
    Upholds I (inner.elseBranch form) (fun found => ∀ e ∈ found, Sound I k (.expr e)) s := by
  unfold elseBranch
  refine Upholds.kind_bind ?_
  split
  · refine Upholds.advance_bind hs fun ht => ?_
    refine Upholds.bind (branch_sound levels ht) fun e u hu he => Upholds.pure hu ?_
    rintro _ ⟨⟩
    exact he
  · exact Upholds.pure hs nofun

/-- A bound of a range. -/
theorem bound_sound :
    Upholds I inner.bound (fun found => ∀ e ∈ found, Sound I k (.expr e)) s :=
  Upholds.advance_bind hs fun ht => partOrSkip_sound levels ht _ _

/-- A bound that is reported when it is missing. -/
theorem requiredBound_sound (keyword : Kind) (expectation : String) :
    Upholds I (inner.requiredBound keyword expectation)
      (fun found => ∀ e ∈ found, Sound I k (.expr e)) s := by
  unfold requiredBound
  refine Upholds.kind_bind ?_
  split
  · exact bound_sound levels hs
  · exact Upholds.reportUnexpected_bind hs fun t ht =>
      Upholds.skipUntil_bind ht fun u hu => Upholds.pure hu nofun

/-- The value of a `case`. -/
theorem caseCondition_sound (isDefault : Bool) :
    Upholds I (inner.caseCondition isDefault)
      (fun found => ∀ e ∈ found, Sound I k (.expr e)) s := by
  unfold caseCondition
  refine Upholds.kind_bind ?_
  split
  · exact Upholds.pure hs nofun
  · exact partOrSkip_sound levels hs _ _

/-- The block of a `case`. -/
theorem caseBlock_sound :
    Upholds I inner.caseBlock (fun found => ∀ b ∈ found, Sound I (k + 1) (.block b)) s := by
  unfold caseBlock
  refine Upholds.kind_bind ?_
  split
  · refine Upholds.bind (levels.block s hs) fun b t ht hb => Upholds.pure ht ?_
    rintro _ ⟨⟩
    exact hb
  · exact Upholds.pure hs nofun

/-! ## Constructs -/

omit levels hs in
/-- A part that may be missing, as children of the node it is a part of. -/
theorem forall_mem_exprs {e : Option Expr} (h : ∀ x ∈ e, Sound I k (.expr x)) :
    ∀ m ∈ e.toList.map Node.expr, Sound I (k + 1) m := by
  intro m hm
  obtain ⟨x, hx, rfl⟩ := List.mem_map.1 hm
  exact (h x (Option.mem_toList.1 hx)).mono (Nat.le_succ k)

omit levels hs in
/-- The same for a block. -/
theorem forall_mem_blocks {b : Option Block} (h : ∀ x ∈ b, Sound I (k + 1) (.block x)) :
    ∀ m ∈ b.toList.map Node.block, Sound I (k + 1) m := by
  intro m hm
  obtain ⟨x, hx, rfl⟩ := List.mem_map.1 hm
  exact h x (Option.mem_toList.1 hx)

/-- An `if` has its condition and its branches. -/
theorem ifThen_sound : Upholds I inner.ifThen (ControlSound I (k + 1)) s := by
  have hstart := I.token hs
  refine Upholds.advance_bind hs fun ht => ?_
  refine Upholds.bind (partOrSkip_sound levels ht _ _) fun condition u hu hcondition => ?_
  refine Upholds.bind (ifBranch_sound levels hu _) fun found v hv hfound => ?_
  refine Upholds.bind (elseBranch_sound levels hv _) fun otherwise w hw hotherwise => ?_
  refine Upholds.spanFrom_bind hw hstart fun span hspan => Upholds.pure hw ⟨hspan, nofun, ?_⟩
  refine List.forall_mem_append.2 ⟨forall_mem_exprs hcondition, List.forall_mem_cons.2 ⟨?_, ?_⟩⟩
  · exact hfound.mono (Nat.le_succ k)
  · exact forall_mem_exprs hotherwise

/-- A `while` loop has its condition and its body. -/
theorem whileDo_sound : Upholds I inner.whileDo (ControlSound I (k + 1)) s := by
  have hstart := I.token hs
  refine Upholds.advance_bind hs fun ht => ?_
  refine Upholds.bind (partOrSkip_sound levels ht _ _) fun condition u hu hcondition => ?_
  refine Upholds.bind (doBody_sound levels hu) fun body v hv hbody => ?_
  refine Upholds.spanFrom_bind hv hstart fun span hspan => Upholds.pure hv ⟨hspan, nofun, ?_⟩
  exact List.forall_mem_append.2 ⟨forall_mem_exprs hcondition, forall_mem_blocks hbody⟩

/-- A `switch` has its value and its body. -/
theorem switchDo_sound : Upholds I inner.switchDo (ControlSound I (k + 1)) s := by
  have hstart := I.token hs
  refine Upholds.advance_bind hs fun ht => ?_
  refine Upholds.bind (partOrSkip_sound levels ht _ _) fun subject u hu hsubject => ?_
  refine Upholds.bind (doBody_sound levels hu) fun body v hv hbody => ?_
  refine Upholds.spanFrom_bind hv hstart fun span hspan => Upholds.pure hv ⟨hspan, nofun, ?_⟩
  exact List.forall_mem_append.2 ⟨forall_mem_exprs hsubject, forall_mem_blocks hbody⟩

/-- The header of a range. Its name is a leaf of its own, and each bound may be the last that is
there. -/
theorem rangeHeader_sound (hk : s.kind = .string) :
    Upholds I inner.rangeHeader (HeaderSound I k) s := by
  have hname : ∀ first last step, ∀ l ∈ (ForHeader.range ⟨s.token.value, s.token.span⟩
      first last step).ownLeaves, I.leaf l := by
    intro first last step
    exact List.forall_mem_singleton.2 (I.leafOf hs (by rw [hk]; decide) ⟨hk, rfl⟩)
  refine Upholds.advance_bind hs fun ht => ?_
  refine Upholds.bind (requiredBound_sound levels ht _ _) fun first u hu hfirst => ?_
  cases first with
  | none => exact Upholds.pure hu ⟨hname _ _ _, nofun⟩
  | some first =>
    have hfirst := hfirst first rfl
    refine Upholds.bind (requiredBound_sound levels hu _ _) fun last v hv hlast => ?_
    cases last with
    | none => exact Upholds.pure hv ⟨hname _ _ _, List.forall_mem_singleton.2 hfirst⟩
    | some last =>
      have hlast := hlast last rfl
      refine Upholds.kind_bind ?_
      split
      · refine Upholds.bind (bound_sound levels hv) fun step w hw hstep => ?_
        refine Upholds.pure hw ⟨hname _ _ _, ?_⟩
        refine List.forall_mem_cons.2 ⟨hfirst, List.forall_mem_cons.2 ⟨hlast, ?_⟩⟩
        exact fun e he => hstep e (Option.mem_toList.1 he)
      · refine Upholds.pure hv ⟨hname _ _ _, ?_⟩
        exact List.forall_mem_cons.2 ⟨hfirst, List.forall_mem_singleton.2 hlast⟩

/-- The header in brackets has the elements of its array. -/
theorem classicHeader_sound : Upholds I inner.classicHeader (HeaderSound I k) s := by
  refine Upholds.bind (part_sound levels hs .unary) fun found t ht hfound => ?_
  split
  · next elements span =>
    refine Upholds.pure ht ⟨nofun, fun e he => ?_⟩
    have harray := hfound _ rfl
    exact harray.child (List.mem_map_of_mem ((ForHeader.parts_sublist elements).subset he))
  · exact Upholds.skipUntil_bind ht fun u hu => Upholds.pure hu ⟨nofun, nofun⟩

/-- A `for` loop has the parts of its header and its body. -/
theorem forDo_sound : Upholds I inner.forDo (ControlSound I (k + 1)) s := by
  have hstart := I.token hs
  refine Upholds.advance_bind hs fun ht => ?_
  -- Whatever the header is, the body is read behind it in the same way.
  have hbody (header : ForHeader) {u : State} (hu : I.state u) (hheader : HeaderSound I k header) :
      Upholds I (do
          let body ← inner.doBody
          return .forDo header body (← spanFrom s.token.span))
        (ControlSound I (k + 1)) u := by
    refine Upholds.bind (doBody_sound levels hu) fun body v hv hbody => ?_
    refine Upholds.spanFrom_bind hv hstart fun span hspan => Upholds.pure hv ?_
    refine ⟨hspan, hheader.leaves, List.forall_mem_append.2 ⟨?_, forall_mem_blocks hbody⟩⟩
    intro m hm
    obtain ⟨e, he, rfl⟩ := List.mem_map.1 hm
    exact (hheader.parts e he).mono (Nat.le_succ k)
  refine Upholds.kind_bind ?_
  split
  · next hk =>
    exact Upholds.bind (rangeHeader_sound levels ht hk) fun header u hu hheader =>
      hbody header hu hheader
  · exact Upholds.bind (classicHeader_sound levels ht) fun header u hu hheader =>
      hbody header hu hheader
  · exact Upholds.reportUnexpected_bind ht fun u hu =>
      Upholds.skipUntil_bind hu fun v hv => hbody .missing hv ⟨nofun, nofun⟩

/-- A case has its value and its block. -/
theorem case_sound : Upholds I inner.case (ControlSound I (k + 1)) s := by
  have hstart := I.token hs
  refine Upholds.advance_bind hs fun ht => ?_
  refine Upholds.bind (caseCondition_sound levels ht _) fun condition u hu hcondition => ?_
  have hcolon : Upholds I caseColon (fun _ => True) u := by
    unfold caseColon
    refine Upholds.kind_bind ?_
    split
    · exact Upholds.advance_bind hu fun hv => Upholds.pure hv trivial
    · exact Upholds.pure hu trivial
  refine Upholds.bind hcolon fun _ v hv _ => ?_
  refine Upholds.bind (caseBlock_sound levels hv) fun block w hw hblock => ?_
  refine Upholds.spanFrom_bind hw hstart fun span hspan => Upholds.pure hw ⟨hspan, nofun, ?_⟩
  exact List.forall_mem_append.2 ⟨forall_mem_exprs hcondition, forall_mem_blocks hblock⟩

/-- Any control structure. -/
theorem control_sound : Upholds I inner.control (ControlSound I (k + 1)) s := by
  unfold control
  refine Upholds.kind_bind ?_
  split
  · exact ifThen_sound levels hs
  · exact whileDo_sound levels hs
  · exact forDo_sound levels hs
  · exact switchDo_sound levels hs
  · exact case_sound levels hs

/-! ## Expressions -/

omit levels in
/-- A number is a leaf. -/
theorem numberLiteral_sound (hk : s.kind = .number) :
    UpholdsOrFails I numberLiteral (fun e => Sound I k (.expr e)) s := by
  have hspan := I.token hs
  refine UpholdsOrFails.state_bind ?_
  dsimp only
  split
  · next value hvalue =>
    refine UpholdsOrFails.advance_bind hs fun ht => UpholdsOrFails.pure ht ?_
    refine Sound.of_leaf hspan (List.forall_mem_singleton.2 ?_) rfl
    exact I.leafOf hs (by rw [hk]; decide) ⟨hk, hvalue, rfl⟩
  · next hvalue => exact UpholdsOrFails.throw hs (I.number hs hk hvalue)

omit hs in
/-- The operand of a command that has been read. -/
theorem operandOf_sound {command : Token}
    (hcommand : I.leaf (.command ⟨command.value, command.span⟩))
    (hspan : I.span command.span) (hs : I.state s) :
    UpholdsOrFails I (do return applied command (← inner.expr .unary))
      (fun e => Sound I (k + 1) (.expr e)) s := by
  refine (levels.expr .unary s hs).bind fun operand t ht hoperand => UpholdsOrFails.pure ht ?_
  refine Sound.of_branches (I.join hspan hoperand.span) (List.forall_mem_singleton.2 hcommand)
    rfl ?_
  exact List.forall_mem_singleton.2 hoperand

/-- A command in front of its operand. -/
theorem prefixed_sound (hk : s.kind = .privateWord ∨ s.kind.isOperator = true) :
    UpholdsOrFails I inner.prefixed (fun e => Sound I (k + 1) (.expr e)) s := by
  have hne : s.kind ≠ .endOfInput := by
    intro hend
    rw [hend] at hk
    simp [Kind.isOperator] at hk
  have hcommand := I.leafOf (l := .command ⟨s.token.value, s.token.span⟩) hs hne
    ⟨.inr hk, rfl⟩
  have hspan := I.token hs
  exact UpholdsOrFails.advance_bind hs fun ht => operandOf_sound levels hcommand hspan ht

/-- A name, which is a leaf or a command with its operand. -/
theorem named_sound (table : Table) (hk : s.kind = .identifier) :
    UpholdsOrFails I (inner.named table) (fun e => Sound I (k + 1) (.expr e)) s := by
  have hne : s.kind ≠ .endOfInput := by rw [hk]; decide
  have hspan := I.token hs
  refine UpholdsOrFails.advance_bind hs fun ht => UpholdsOrFails.state_bind ?_
  split
  · exact operandOf_sound levels (I.leafOf hs hne ⟨.inl hk, rfl⟩) hspan ht
  · refine UpholdsOrFails.pure ht (Sound.of_leaf hspan (List.forall_mem_singleton.2 ?_) rfl)
    exact I.leafOf hs hne ⟨hk, rfl⟩

/-- Parentheses leave no node of their own. -/
theorem grouped_sound : UpholdsOrFails I inner.grouped (fun e => Sound I k (.expr e)) s := by
  refine UpholdsOrFails.advance_bind hs fun ht => ?_
  refine (levels.expr .lowest _ ht).bind fun e u hu he => ?_
  exact (UpholdsOrFails.expect hu _).bind fun closer v hv _ => UpholdsOrFails.pure hv he

/-- An array has its elements. -/
theorem arrayLiteral_sound :
    UpholdsOrFails I inner.arrayLiteral (fun e => Sound I (k + 1) (.expr e)) s := by
  have hstart := I.token hs
  refine UpholdsOrFails.advance_bind hs fun ht => ?_
  refine (commaList_upholds (by decide) _ (levels.expr .lowest) _ ht).bind
    fun elements u hu helements => ?_
  refine UpholdsOrFails.advance_bind hu fun hv => ?_
  refine UpholdsOrFails.spanFrom_bind hv hstart fun span hspan => UpholdsOrFails.pure hv ?_
  refine Sound.of_branches hspan nofun rfl ?_
  intro m hm
  obtain ⟨e, he, rfl⟩ := List.mem_map.1 hm
  exact helements e he

/-- Any operand: a literal, a name, a group, an array, a block or a control structure. -/
theorem operand_sound (table : Table) :
    UpholdsOrFails I (inner.operand table) (fun e => Sound I (k + 2) (.expr e)) s := by
  -- The kinds of operand need different depths; the deepest of them is allowed to all.
  have hmore {e : Expr} (he : Sound I (k + 1) (.expr e)) : Sound I (k + 2) (.expr e) :=
    he.mono (Nat.le_succ _)
  have hprefixed (hk : s.kind = .privateWord ∨ s.kind.isOperator = true) :
      UpholdsOrFails I inner.prefixed (fun e => Sound I (k + 2) (.expr e)) s :=
    (prefixed_sound levels hs hk).weaken fun _ he => hmore he
  unfold operand
  refine UpholdsOrFails.kind_bind ?_
  split
  · next hk => exact numberLiteral_sound hs hk
  · next hk =>
    have hspan := I.token hs
    refine UpholdsOrFails.advance_bind hs fun ht => UpholdsOrFails.pure ht ?_
    refine Sound.of_leaf hspan (List.forall_mem_singleton.2 ?_) rfl
    exact I.leafOf hs (by rw [hk]; decide) ⟨hk, rfl, rfl⟩
  · next hk => exact (named_sound levels hs table hk).weaken fun _ he => hmore he
  · exact (grouped_sound levels hs).weaken fun _ he => he.mono (Nat.le_add_right k 2)
  · exact (arrayLiteral_sound levels hs).weaken fun _ he => hmore he
  · refine UpholdsOrFails.lift_bind (levels.block s hs) fun b t ht hb =>
      UpholdsOrFails.pure ht ?_
    exact Sound.of_branches hb.span nofun rfl fun m hm => hb.child hm
  · next hk => exact hprefixed (by rw [hk]; decide)
  · next hk => exact hprefixed (by rw [hk]; decide)
  · next hk => exact hprefixed (by rw [hk]; decide)
  · next hk => exact hprefixed (by rw [hk]; decide)
  · split
    · refine UpholdsOrFails.lift_bind (control_sound levels hs) fun c t ht hc =>
        UpholdsOrFails.pure ht ?_
      exact Sound.of_branches hc.span hc.leaves rfl hc.parts
    · exact UpholdsOrFails.failUnexpected hs _

omit hs in
/-- Operators are taken one after the other, and what was read becomes the left operand. That takes
no turn, however many there are. -/
theorem operators_sound (table : Table) (limit : Tier) (s : State) (hs : I.state s) {left : Expr}
    (hleft : Sound I (k + 2) (.expr left)) :
    UpholdsOrFails I (inner.operators table limit left) (fun e => Sound I (k + 2) (.expr e)) s := by
  rw [operators_eq inner]
  refine UpholdsOrFails.state_bind ?_
  split
  · exact UpholdsOrFails.pure hs hleft
  · next tier htier =>
    split
    · have hne : s.kind ≠ .endOfInput := by
        intro hend
        rw [tier?_endOfInput table hend] at htier
        cases htier
      have hread := length_advance hne
      have hle := length_next_le (inner.expr tier).run (advance s).next
      have hcommand := I.leafOf (l := .command ⟨s.token.value, s.token.span⟩) hs hne
        ⟨(isOperator_of_tier htier).imp_right .inr, rfl⟩
      refine UpholdsOrFails.advance_bind hs fun ht => ?_
      refine (levels.expr tier _ ht).bind_run fun right hu hright => ?_
      refine operators_sound table limit _ hu ?_
      -- The right operand was read inside, so it has a turn to spare. The left one needs none.
      refine Sound.of_children (I.join hleft.span hright.span)
        (List.forall_mem_singleton.2 hcommand) (List.forall_mem_singleton.2 hleft) ?_
      exact List.forall_mem_singleton.2 (hright.mono (Nat.le_succ k))
    · exact UpholdsOrFails.pure hs hleft
termination_by s.rest.length

/-- An expression, however many operators it has. -/
theorem expression_sound (table : Table) (limit : Tier) :
    UpholdsOrFails I (inner.expression table limit) (fun e => Sound I (k + 2) (.expr e)) s :=
  (operand_sound levels hs table).bind fun _ t ht hleft =>
    operators_sound levels table limit t ht hleft

/-! ## Statements -/

/-- An assignment, which starts with its name. -/
theorem assignment_sound (isPrivate : Bool) {start : Span} (hstart : I.span start)
    (hk : s.kind = .identifier) :
    UpholdsOrFails I (inner.assignment isPrivate start) (fun a => Sound I (k + 1) (.stmt a)) s := by
  have htarget := I.leafOf (l := .target ⟨s.token.value, s.token.span⟩) hs
    (by rw [hk]; decide) ⟨hk, rfl⟩
  refine UpholdsOrFails.advance_bind hs fun ht => ?_
  refine (UpholdsOrFails.expect ht _).bind fun sign u hu _ => ?_
  refine (levels.expr .lowest u hu).bind fun value v hv hvalue => UpholdsOrFails.pure hv ?_
  refine Sound.of_branches (I.join hstart hvalue.span) (List.forall_mem_singleton.2 htarget) rfl ?_
  exact List.forall_mem_singleton.2 hvalue

/-- Any statement: an assignment, a control structure or an expression. -/
theorem statement_sound :
    UpholdsOrFails I inner.statement (fun a => Sound I (k + 2) (.stmt a)) s := by
  have hmore {a : Stmt} (ha : Sound I (k + 1) (.stmt a)) : Sound I (k + 2) (.stmt a) :=
    ha.mono (Nat.le_succ _)
  have hstart := I.token hs
  unfold statement
  refine UpholdsOrFails.state_bind ?_
  split
  · next hprivate =>
    simp only [Bool.and_eq_true, decide_eq_true_eq] at hprivate
    obtain ⟨⟨hk, hname⟩, -⟩ := hprivate
    refine UpholdsOrFails.advance_bind hs fun ht => ?_
    refine (assignment_sound levels ht true hstart ?_).weaken fun _ ha => hmore ha
    rw [kind_next_advance (by rw [hk]; decide)]
    exact hname
  · split
    · refine UpholdsOrFails.lift_bind (control_sound levels hs) fun c t ht hc =>
        UpholdsOrFails.pure ht ?_
      exact Sound.of_branches hc.span hc.leaves rfl hc.parts
    · split
      · next hassignment =>
        simp only [Bool.and_eq_true, decide_eq_true_eq] at hassignment
        exact (assignment_sound levels hs false hstart hassignment.1).weaken fun _ ha => hmore ha
      · refine (levels.expr .lowest s hs).bind fun e t ht he => UpholdsOrFails.pure ht (hmore ?_)
        exact Sound.of_branches he.span nofun rfl (List.forall_mem_singleton.2 he)

omit levels in
/-- What ends a statement leaves no node. -/
theorem separator_upholds : Upholds I separator (fun _ => True) s := by
  refine ⟨?_, trivial⟩
  rcases separator_cases s with ⟨-, hnext⟩ | ⟨-, -, hnext⟩ | ⟨-, -, hnext⟩
  · rw [hnext]
    exact I.advance hs
  · rw [hnext]
    exact hs
  · rw [hnext]
    exact I.report hs (I.plain rfl (I.token hs))

/-- A statement, or the placeholder of one that is skipped. -/
theorem statementOrError_sound :
    Upholds I inner.statementOrError (fun a => Sound I (k + 2) (.stmt a)) s := by
  have hsuffix := (inner.statement.run s).suffix
  refine Upholds.state_bind (Upholds.bind_run (statement_sound levels hs) fun ht houtcome => ?_)
  generalize (inner.statement.run s).next = t at ht hsuffix
  -- A statement that fails is reported first, so the invariant has to allow its diagnostic.
  cases hvalue : (inner.statement.run s).value with
  | ok a =>
    rw [hvalue] at houtcome
    exact Upholds.bind (separator_upholds ht) fun _ u hu _ => Upholds.pure hu houtcome
  | error d =>
    rw [hvalue] at houtcome
    have hreported := I.report ht houtcome
    have hreport : Upholds I (report d) (fun _ => True) t := ⟨hreported, trivial⟩
    refine Upholds.bind_run hreport fun hu _ => ?_
    refine Upholds.bind (synchronize_upholds hs hu hsuffix) fun span v hv hspan => ?_
    exact Upholds.pure hv (Sound.of_leaf hspan nofun rfl)

/-- One turn of the loop over statements. -/
theorem turn_sound (enclosure : Enclosure) :
    Upholds I (inner.turn enclosure) (fun found => ∀ a ∈ found, Sound I (k + 2) (.stmt a)) s := by
  refine Upholds.state_bind (Upholds.skip_bind hs fun t ht => Upholds.kind_bind ?_)
  split
  · exact Upholds.pure ht nofun
  · cases enclosure with
    | block => exact Upholds.pure ht nofun
    | file =>
      have hspan := I.token ht
      refine Upholds.advance_bind ht fun hu => ?_
      refine Upholds.report_bind hu (I.plain rfl hspan) fun v hv => Upholds.pure hv ?_
      rintro _ ⟨⟩
      exact Sound.of_leaf hspan nofun rfl
  · refine Upholds.bind (statementOrError_sound levels ht) fun a u hu ha => Upholds.pure hu ?_
    rintro _ ⟨⟩
    exact ha

omit hs in
/-- All statements of a file or of a block. -/
theorem statements_sound (enclosure : Enclosure) (s : State) (hs : I.state s) :
    Upholds I (inner.statements enclosure) (fun ss => ∀ a ∈ ss, Sound I (k + 2) (.stmt a)) s :=
  many_upholds (fun _ ht => turn_sound levels ht enclosure) s hs

/-- A block, which is a turn above its statements. -/
theorem codeBlock_sound : Upholds I inner.codeBlock (fun b => Sound I (k + 3) (.block b)) s := by
  have hstart := I.token hs
  refine Upholds.advance_bind hs fun ht => Upholds.freshId_bind ht fun id u hu => ?_
  refine Upholds.bind (statements_sound levels .block u hu) fun ss v hv hss => ?_
  -- The closing brace may be missing, which is reported.
  have hbrace : Upholds I closingBrace (fun _ => True) v := by
    unfold closingBrace
    refine Upholds.kind_bind ?_
    split
    · exact Upholds.advance_bind hv fun hw => Upholds.pure hw trivial
    · exact ⟨I.report hv (I.unexpected hv _), trivial⟩
  refine Upholds.bind hbrace fun _ w hw _ => ?_
  refine Upholds.spanFrom_bind hw hstart fun span hspan => Upholds.pure hw ?_
  refine Sound.of_branches hspan nofun rfl ?_
  intro m hm
  obtain ⟨a, ha, rfl⟩ := List.mem_map.1 hm
  exact hss a ha

end Level

/-- However many levels may be nested, what is read of them is sound. -/
theorem level_sound (I : Invariant) (table : Table) (n : Nat) :
    LevelSound I (2 * n) (level table n) := by
  induction n with
  | zero =>
    -- Past the limit nothing is read but error nodes, and blocks with one of them inside.
    constructor
    · intro tier s hs
      have hdeep : UpholdsOrFails I Level.deepExpr (fun e => Sound I 0 (.expr e)) s :=
        UpholdsOrFails.lift_bind (skipNested_upholds hs) fun span t ht hspan =>
          UpholdsOrFails.pure ht (Sound.of_leaf hspan nofun rfl)
      exact hdeep
    · intro s hs
      have hstart := I.token hs
      refine Upholds.state_bind (Upholds.freshId_bind hs fun id t ht => ?_)
      refine Upholds.bind (skipNested_upholds ht) fun span u hu hspan => Upholds.pure hu ?_
      refine Sound.of_branches (I.join hspan hstart) nofun rfl (List.forall_mem_singleton.2 ?_)
      exact Sound.of_leaf hspan nofun rfl
  | succ n ih =>
    constructor
    · intro tier s hs
      exact Level.expression_sound ih hs table tier
    · intro s hs
      exact Level.codeBlock_sound ih hs

end Sqf.Parse
