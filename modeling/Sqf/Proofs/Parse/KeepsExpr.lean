import Sqf.Proofs.Parse.Keeps

/-!
# Expressions that are read without a report

An expression that is read without a report keeps all of its code. An operator
comes before both of its operands in the tree, and between them in the text, so
its leaves are those of the text in another order.

A loop header in brackets is read as an array. That it has no more than three
parts is seen from its tokens (`header_keeps`).
-/

namespace Sqf.Parse

/-! ## Leaves of expressions -/

/-- A binary command comes before its operands in the tree. -/
theorem leaves_joined (op : Token) (left right : Expr) :
    (Node.expr (joined op left right)).leaves =
      .command ⟨op.value, op.span⟩ :: ((Node.expr left).leaves ++ (Node.expr right).leaves) := by
  rw [Node.leaves_eq]
  simp [joined, Node.ownLeaves, Node.children]

/-- A unary command comes before its operand, as in the text. -/
theorem leaves_applied (command : Token) (operand : Expr) :
    (Node.expr (applied command operand)).leaves =
      .command ⟨command.value, command.span⟩ :: (Node.expr operand).leaves := by
  rw [Node.leaves_eq]
  simp [applied, Node.ownLeaves, Node.children]

/-- A block that is a value has the leaves of the block. -/
theorem leaves_block (b : Block) : (Node.expr (.block b)).leaves = (Node.block b).leaves := by
  rw [Node.leaves_eq, Node.leaves_eq]
  rfl

/-- An operator is a name, a symbol or a connective. -/
theorem isOperator_of_tier {table : Table} {t : Token} {tier : Tier}
    (h : table.tier? t = some tier) : t.kind = .identifier ∨ t.kind.isOperator = true := by
  unfold Table.tier? at h
  split at h
  · next hid => exact .inl hid
  · unfold Tier.ofKind? at h
    split at h <;> simp_all [Kind.isOperator]

/-- A `#` is the only operator that binds more tightly than a prefix command. -/
theorem hash_of_tighter {table : Table} {t : Token} {tier : Tier}
    (h : table.tier? t = some tier) (htight : tier.tighter .unary = true) : t.kind = .hash := by
  unfold Table.tier? at h
  split at h
  · split at h
    · cases h
      unfold Tier.ofWord at htight
      split at htight
      · cases htight
      · split at htight <;> cases htight
    · cases h
  · unfold Tier.ofKind? at h
    split at h <;> cases h <;> first | assumption | cases htight

/-- The token of a command is in its leaf. -/
theorem Accounts.command {t : Token} {ls : List Leaf} {ts : List Token}
    (ht : t.kind = .identifier ∨ t.kind = .privateWord ∨ t.kind.isOperator = true)
    (h : Accounts ls ts) : Accounts (.command ⟨t.value, t.span⟩ :: ls) (t :: ts) := by
  have hkind : t.kind.isInner = true ∧ t.kind.isSeparator = false := by
    rcases ht with hid | hprivate | hoperator
    · rw [hid]
      decide
    · rw [hprivate]
      decide
    · revert hoperator
      cases t.kind <;> decide
  exact h.leaf hkind.1 hkind.2 ⟨ht, rfl⟩

namespace Level

variable {inner : Level} (levels : LevelKeeps inner) (table : Table) {s : State}

/-! ## Expressions -/

/-- A number is kept. -/
theorem numberLiteral_keeps (hk : s.kind = .number) :
    KeepsOrFails numberLiteral
      (fun e ts => ts ≠ [] ∧ Accounts (Node.expr e).leaves ts) s := by
  refine KeepsOrFails.state_bind ?_
  dsimp only
  split
  · next value hvalue =>
    refine KeepsOrFails.advance_bind hk (by decide) fun t u hrest ht => KeepsOrFails.pure ?_
    refine ⟨List.cons_ne_nil _ _, ?_⟩
    rw [State.token_cons hrest] at hvalue ⊢
    rw [Node.leaves_eq]
    exact Accounts.nil.leaf (by rw [ht]; rfl) (by rw [ht]; rfl) ⟨ht, hvalue, rfl⟩
  · exact KeepsOrFails.throw _

include levels

/-- A command that has been read is kept with its operand. -/
theorem operandOf_keeps (command : Token)
    (ht : command.kind = .identifier ∨ command.kind = .privateWord ∨
      command.kind.isOperator = true) :
    KeepsOrFails (do return applied command (← inner.expr .unary))
      (fun e ts => Accounts (Node.expr e).leaves (command :: ts)) s := by
  refine (levels.expr .unary s).bind fun operand t => KeepsOrFails.pure ?_
  rintro ts ⟨-, hts⟩
  rw [List.append_nil, leaves_applied]
  exact Accounts.command ht hts

/-- A command in front of its operand is kept. -/
theorem prefixed_keeps (hne : s.kind ≠ .endOfInput)
    (hk : s.kind = .privateWord ∨ s.kind.isOperator = true) :
    KeepsOrFails inner.prefixed (fun e ts => ts ≠ [] ∧ Accounts (Node.expr e).leaves ts) s := by
  refine KeepsOrFails.advance_bind rfl hne fun t u _ ht => ?_
  refine (operandOf_keeps levels t (.inr (by rwa [ht]))).weaken fun e ts hts => ?_
  exact ⟨List.cons_ne_nil _ _, hts⟩

/-- A name is kept, as a variable or as a command. -/
theorem named_keeps (hk : s.kind = .identifier) :
    KeepsOrFails (inner.named table)
      (fun e ts => ts ≠ [] ∧ Accounts (Node.expr e).leaves ts) s := by
  refine KeepsOrFails.advance_bind hk (by decide) fun t u _ ht => ?_
  refine KeepsOrFails.state_bind ?_
  split
  · refine (operandOf_keeps levels t (.inl ht)).weaken fun e ts hts => ?_
    exact ⟨List.cons_ne_nil _ _, hts⟩
  · refine KeepsOrFails.pure ⟨List.cons_ne_nil _ _, ?_⟩
    rw [Node.leaves_eq]
    exact Accounts.nil.leaf (by rw [ht]; rfl) (by rw [ht]; rfl) ⟨ht, rfl⟩

/-- Parentheses are no code of their own, so what they hold is all there is. -/
theorem grouped_keeps (hk : s.kind = .openParen) :
    KeepsOrFails inner.grouped (fun e ts => ts ≠ [] ∧ Accounts (Node.expr e).leaves ts) s := by
  refine KeepsOrFails.advance_bind hk (by decide) fun t u _ ht => ?_
  refine (levels.expr .lowest u).bind fun e v => ?_
  refine (KeepsOrFails.expect (by decide) _).bind fun closer w => KeepsOrFails.pure ?_
  rintro _ ⟨rfl, hcloser⟩ ts ⟨-, hts⟩
  refine ⟨List.cons_ne_nil _ _, ?_⟩
  have hgroup : Accounts (Node.expr e).leaves (t :: ts ++ [closer]) :=
    Accounts.group (by rw [ht, hcloser]; rfl) hts.holds
  simpa using hgroup

/-- What is read of array elements: their code, and how many parts they are of a header. -/
structure Elements (elements : List Expr) (ts : List Token) : Prop where
  holds : Holds ((elements.map .expr).flatMap Node.leaves) ts
  fits : ∀ closer us left, closer.kind = .closeBracket →
    headerFits left true 0 (ts ++ closer :: us) = true →
      elements.length ≤ left ∧ ∀ t vs, us = t :: vs → t.kind ≠ .hash

omit levels in
/-- An array may be empty. -/
theorem Elements.nil : Elements [] [] := by
  refine ⟨.nil, fun closer us left hcloser hfits => ⟨Nat.zero_le _, ?_⟩⟩
  exact fun t vs hus => ne_hash_of_headerFits (by rw [hcloser]; rfl) hfits hus

omit levels in
/-- It may have one element. -/
theorem Elements.singleton {e : Expr} {ts : List Token} (hne : ts ≠ [])
    (h : Accounts (Node.expr e).leaves ts) : Elements [e] ts := by
  refine ⟨by simpa using h.holds, fun closer us left hcloser hfits => ?_⟩
  rcases headerFits_part h.solid hne hfits with ⟨hleft, hfits⟩
  exact ⟨hleft, fun t vs hus => ne_hash_of_headerFits (by rw [hcloser]; rfl) hfits hus⟩

omit levels in
/-- A comma stands between an element and those behind it. -/
theorem Elements.cons {e : Expr} {es : List Expr} {comma : Token} {ts us : List Token}
    (hne : ts ≠ []) (h : Accounts (Node.expr e).leaves ts) (hcomma : comma.kind = .comma)
    (hothers : Elements es us) : Elements (e :: es) (ts ++ comma :: us) := by
  refine ⟨?_, fun closer vs left hcloser hfits => ?_⟩
  · have hpassed : Holds [] [comma] := Holds.separators (by simp [hcomma, Kind.isSeparator])
    exact h.holds.append (hpassed.append hothers.holds)
  · rw [List.append_assoc, List.cons_append] at hfits
    rcases headerFits_part h.solid hne hfits with ⟨hleft, hfits⟩
    rw [headerFits_comma hcomma] at hfits
    rcases hothers.fits closer vs (left - 1) hcloser hfits with ⟨hlength, hhash⟩
    refine ⟨?_, hhash⟩
    rw [List.length_cons]
    omega

/-- Elements are read one after the other; the recursion is over the tokens left. -/
theorem commaList_keeps (s : State) (expectation : String) (tier : Tier) :
    KeepsOrFails (commaList .closeBracket expectation (inner.expr tier)) Elements s := by
  rw [commaList_eq (by decide) expectation (inner.expr tier)]
  refine KeepsOrFails.kind_bind ?_
  split
  · exact KeepsOrFails.pure .nil
  · refine (levels.expr tier s).bind_run fun e he => ?_
    refine KeepsOrFails.kind_bind ?_
    split
    · next hcomma =>
      have hle := length_next_le (inner.expr tier).run s
      refine KeepsOrFails.advance_bind hcomma (by decide) fun t u hrest ht => ?_
      -- What is left behind the comma is shorter, which ends the recursion.
      have hlt : u.rest.length < s.rest.length := by
        rw [hrest, List.length_cons] at hle
        omega
      refine (commaList_keeps u expectation tier).bind fun es v => KeepsOrFails.pure ?_
      rintro us hus ts ⟨hne, hts⟩
      rw [List.append_nil]
      exact .cons hne hts ht hus
    · split
      · refine KeepsOrFails.pure ?_
        rintro ts ⟨hne, hts⟩
        rw [List.append_nil]
        exact .singleton hne hts
      · exact KeepsOrFails.failUnexpected _
termination_by s.rest.length

/-- An array literal with its brackets. -/
def ArrayOf (e : Expr) (ts : List Token) : Prop :=
  ∃ elements span first us closer, e = .array elements span ∧ ts = first :: us ++ [closer] ∧
    first.kind = .openBracket ∧ closer.kind = .closeBracket ∧ Elements elements us

omit levels in
/-- An array keeps its elements. -/
theorem ArrayOf.accounts {e : Expr} {ts : List Token} (h : ArrayOf e ts) :
    ts ≠ [] ∧ Accounts (Node.expr e).leaves ts := by
  rcases h with ⟨elements, span, first, us, closer, rfl, rfl, hfirst, hcloser, helements⟩
  refine ⟨List.cons_ne_nil _ _, ?_⟩
  rw [Node.leaves_eq]
  exact Accounts.group (by rw [hfirst, hcloser]; rfl) helements.holds

/-- An array that is read without a report is one of the tokens between its brackets. -/
theorem arrayLiteral_keeps (hk : s.kind = .openBracket) :
    KeepsOrFails inner.arrayLiteral ArrayOf s := by
  refine KeepsOrFails.advance_bind hk (by decide) fun first t _ hfirst => ?_
  refine (commaList_keeps levels t _ .lowest).bind_run fun elements helements => ?_
  have hclosed := commaList_closed (by decide) _ (inner.expr .lowest) t elements helements
  refine KeepsOrFails.advance_bind hclosed (by decide) fun closer u _ hcloser => ?_
  refine KeepsOrFails.lift_bind (Keeps.spanFrom _) fun span v => KeepsOrFails.pure ?_
  rintro _ rfl us hus
  exact ⟨elements, span, first, us, closer, rfl, rfl, hfirst, hcloser, hus⟩

/-- Any operand is kept. -/
theorem operand_keeps :
    KeepsOrFails (inner.operand table)
      (fun e ts => ts ≠ [] ∧ Accounts (Node.expr e).leaves ts) s := by
  unfold operand
  refine KeepsOrFails.kind_bind ?_
  split
  · next hk => exact numberLiteral_keeps hk
  · next hk =>
    refine KeepsOrFails.advance_bind hk (by decide) fun t u _ ht => KeepsOrFails.pure ?_
    refine ⟨List.cons_ne_nil _ _, ?_⟩
    rw [Node.leaves_eq]
    exact Accounts.nil.leaf (by rw [ht]; rfl) (by rw [ht]; rfl) ⟨ht, rfl, rfl⟩
  · next hk => exact named_keeps levels table hk
  · next hk => exact grouped_keeps levels hk
  · next hk => exact (arrayLiteral_keeps levels hk).weaken fun _ _ h => h.accounts
  · next hk =>
    refine KeepsOrFails.lift_bind (levels.block s hk) fun b t => KeepsOrFails.pure ?_
    rintro ts hts
    rwa [List.append_nil, leaves_block]
  case h_11 =>
    split
    · next hk =>
      refine KeepsOrFails.lift_bind (control_keeps levels hk) fun c t => KeepsOrFails.pure ?_
      rintro ts hts
      rw [List.append_nil, Node.leaves_eq]
      exact hts
    · exact KeepsOrFails.failUnexpected _
  all_goals
    next hk =>
      exact prefixed_keeps levels (by rw [hk]; decide) (by rw [hk]; decide)

/-- What operators make of an operand. Either there are none, or the first is taken because it
binds tightly enough. -/
def Extends (table : Table) (limit : Tier) (left e : Expr) (ts : List Token) : Prop :=
  (∃ ls, (Node.expr e).leaves.Perm ((Node.expr left).leaves ++ ls) ∧ Accounts ls ts) ∧
    (e = left ∨ ∃ op us tier, ts = op :: us ∧ table.tier? op = some tier ∧
      tier.tighter limit = true)

/-- Operators are taken one after the other; the recursion is over the tokens left. -/
theorem operators_keeps (s : State) (limit : Tier) (left : Expr) :
    KeepsOrFails (inner.operators table limit left) (Extends table limit left) s := by
  have hdone : KeepsOrFails (Pure.pure left) (Extends table limit left) s :=
    KeepsOrFails.pure ⟨⟨[], by rw [List.append_nil], .nil⟩, .inl rfl⟩
  rw [operators_eq inner]
  refine KeepsOrFails.state_bind ?_
  split
  · exact hdone
  · next tier htier =>
    split
    · next htight =>
      have hne : s.kind ≠ .endOfInput := by
        intro hend
        rw [tier?_endOfInput table hend] at htier
        cases htier
      refine KeepsOrFails.advance_bind rfl hne fun op u hrest hop => ?_
      rw [State.token_cons hrest] at htier
      have hle := length_next_le (inner.expr tier).run u
      refine (levels.expr tier u).bind_run fun right _ => ?_
      have hlt : ((inner.expr tier).run u).next.rest.length < s.rest.length := by
        rw [hrest, List.length_cons]
        omega
      refine (operators_keeps _ limit (joined op left right)).weaken ?_
      rintro e us ⟨⟨ls, hperm, hls⟩, -⟩ ts ⟨-, hts⟩
      refine ⟨⟨.command ⟨op.value, op.span⟩ :: ((Node.expr right).leaves ++ ls), ?_, ?_⟩,
        .inr ⟨op, ts ++ us, tier, rfl, htier, htight⟩⟩
      · -- The operator stands in front of its operands in the tree, and between them in the text.
        refine hperm.trans ?_
        rw [leaves_joined, List.cons_append, List.append_assoc]
        exact List.perm_middle.symm
      · exact Accounts.command ((isOperator_of_tier htier).imp_right .inr) (hts.append hls)
    · exact hdone
termination_by s.rest.length

/-- An expression is kept: first an operand, and then all operators with theirs. -/
theorem expression_keeps (limit : Tier) :
    KeepsOrFails (inner.expression table limit)
      (fun e ts => ts ≠ [] ∧ Accounts (Node.expr e).leaves ts) s := by
  refine (operand_keeps levels table).bind fun left t => ?_
  refine (operators_keeps levels table t limit left).weaken ?_
  rintro e us ⟨⟨ls, hperm, hls⟩, -⟩ ts ⟨hne, hts⟩
  exact ⟨by simp [hne], (hts.append hls).perm hperm.symm⟩

/-- An array that is a loop header has at most three elements, and no operator takes it as its
operand. -/
theorem header_keeps {bracket : Token} {ts : List Token} (hrest : s.rest = bracket :: ts)
    (hbracket : bracket.kind = .openBracket) (hfits : headerFits 3 true 0 ts = true) :
    KeepsOrFails (inner.expression table .unary) (fun e us => Accounts (Node.expr e).leaves us ∧
      ∃ elements span, e = .array elements span ∧ elements.length ≤ 3) s := by
  have hkind : s.kind = .openBracket := (State.kind_cons hrest).trans hbracket
  have hoperand : KeepsOrFails (inner.operand table) ArrayOf s := by
    unfold operand
    refine KeepsOrFails.kind_bind ?_
    rw [hkind]
    exact arrayLiteral_keeps levels hkind
  refine KeepsOrFails.of_prefix (hoperand.bind fun left t => ?_)
  refine (operators_keeps levels table t .unary left).weaken ?_
  rintro e us ⟨⟨ls, hperm, hls⟩, hoperator⟩ vs harray hprefix
  refine ⟨(harray.accounts.2.append hls).perm hperm.symm, ?_⟩
  rcases harray with ⟨elements, span, first, ws, closer, rfl, rfl, -, hcloser, helements⟩
  rcases hprefix with ⟨others, hothers⟩
  rw [hrest] at hothers
  have hts : ts = ws ++ closer :: (us ++ others) := by
    simpa using (List.cons.inj hothers).2.symm
  rw [hts] at hfits
  rcases helements.fits closer _ 3 hcloser hfits with ⟨hlength, hhash⟩
  rcases hoperator with rfl | ⟨op, xs, tier, rfl, htier, htight⟩
  · exact ⟨elements, span, rfl, hlength⟩
  · exact absurd (hash_of_tighter htier htight) (hhash op _ rfl)

end Level

end Sqf.Parse
