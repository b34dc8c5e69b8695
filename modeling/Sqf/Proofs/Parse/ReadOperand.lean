import Sqf.Proofs.Parse.Spelled

/-!
# Reading back operands

`Level.Reads` says of the parsers for one level which nodes they read back from
the words of these nodes. What stands inside of a construct is read by the
parsers of the level below, and three levels suffice for one node: parentheses,
the header of a loop, and the parts of this header. A node `Fits` if it can be
written and its height leaves as many levels.

Here is what such parsers make of an operand.
-/

namespace Sqf

open Recast Written

namespace Parse

/-! ## Nodes and levels -/

/-- A node can be written, and its height allows for `limit` levels of nesting. -/
structure Fits (table : Table) (numeral : Double → String) (limit : Nat) (n : Node) : Prop where
  writable : ∀ m ∈ n.walk, m.Writable table numeral
  height : 3 * n.height ≤ limit

/-- The parts of a control construct are all there, and each fits. -/
structure PartsFit (table : Table) (numeral : Double → String) (limit : Nat) (c : Control) :
    Prop where
  complete : c.Complete
  children : ∀ m ∈ c.children, Fits table numeral limit m

section Fits

variable {table : Table} {numeral : Double → String} {limit k : Nat} {n m : Node}

theorem Fits.self (h : Fits table numeral limit n) : n.Writable table numeral :=
  h.writable n n.mem_walk_self

/-- A node that fits has a height, and so some levels are left. -/
theorem Fits.three_le (h : Fits table numeral limit n) : 3 ≤ limit := by
  have hpos := n.height_pos
  have hheight := h.height
  omega

/-- It fits where more levels are left. -/
theorem Fits.mono (h : Fits table numeral limit n) (hle : limit ≤ k) : Fits table numeral k n :=
  ⟨h.writable, Nat.le_trans h.height hle⟩

/-- One step down leaves three levels less. -/
theorem Fits.child (h : Fits table numeral limit n) (hm : m ∈ n.children) (hle : limit ≤ k + 3) :
    Fits table numeral k m := by
  refine ⟨fun l hl => h.writable l (Node.walk_subset_of_mem_children hm hl), ?_⟩
  have hlt := Node.height_lt_of_mem_children hm
  have hheight := h.height
  omega

/-- Nodes with the same children have the same height, so one fits if the other does. -/
theorem Fits.of_children_eq (h : Fits table numeral limit n) (heq : m.children = n.children)
    (hm : m.Writable table numeral) : Fits table numeral limit m := by
  constructor
  · intro l hl
    rw [Node.walk_eq] at hl
    rcases List.mem_cons.1 hl with rfl | hl
    · exact hm
    · rw [heq] at hl
      apply h.writable l
      rw [Node.walk_eq]
      exact List.mem_cons_of_mem _ hl
  · rw [Node.height_eq, heq, ← Node.height_eq]
    exact h.height

theorem Fits.block {b : Block} (h : Fits table numeral limit (.expr (.block b))) :
    Fits table numeral limit (.block b) :=
  h.of_children_eq (by rw [Node.children, Node.children]) trivial

theorem Fits.partsOfExpr {c : Control} (h : Fits table numeral limit (.expr (.control c)))
    (hle : limit ≤ k + 3) : PartsFit table numeral k c :=
  ⟨h.self, fun _ hm => h.child (by rwa [Node.children]) hle⟩

theorem Fits.partsOfStmt {c : Control} (h : Fits table numeral limit (.stmt (.control c)))
    (hle : limit ≤ k + 3) : PartsFit table numeral k c :=
  ⟨h.self, fun _ hm => h.child (by rwa [Node.children]) hle⟩

end Fits

/-- No operator stands before these words. -/
def Quiet (ws : List Word) : Prop :=
  firstKind ws ≠ .identifier ∧ Tier.ofKind? (firstKind ws) = none

/-- The words go on behind a statement or behind an expression in parentheses. -/
def Closes (ws : List Word) : Prop :=
  firstKind ws = .endOfInput ∨ firstKind ws = .semicolon ∨ firstKind ws = .closeCurly ∨
    firstKind ws = .closeParen

/-- What ends a statement is no operator. -/
theorem Closes.quiet {ws : List Word} (h : Closes ws) : Quiet ws := by
  unfold Quiet
  rcases h with h | h | h | h <;> rw [h] <;> decide

/-- A word that could go on with a construct is none of those that close it. -/
theorem Closes.firstKind_ne {ws : List Word} (h : Closes ws) {k : Kind}
    (hk : k ∉ [.endOfInput, .semicolon, .closeCurly, .closeParen]) : firstKind ws ≠ k := by
  rintro rfl
  apply hk
  rcases h with h | h | h | h <;> rw [h] <;> decide

/-- Which nodes the parsers for `n` more levels read back, taking back block numbers by `f`. -/
structure Level.Reads (table : Table) (numeral : Double → String) (f : Nat → Nat) (inner : Level)
    (n : Nat) : Prop where
  /-- An expression in parentheses. -/
  parens : ∀ e tier rest, Fits table numeral n (.expr e) → Quiet rest →
    Gives f (inner.expr tier) (inParens (Written.expr numeral e) ++ rest) rest fun e' =>
      (renumbered f).expr e' = unplaced.expr e
  /-- An expression that a parenthesis closes. -/
  bare : ∀ e rest, Fits table numeral (n + 1) (.expr e) →
    Gives f (inner.expr .lowest) (Written.expr numeral e ++ .mark .closeParen :: rest)
      (.mark .closeParen :: rest) fun e' => (renumbered f).expr e' = unplaced.expr e
  /-- The block of a branch. -/
  branchBlock : ∀ b tier rest, Fits table numeral (n + 1) (.block b) → Quiet rest →
    Gives f (inner.expr tier) (Written.block numeral b ++ rest) rest fun e' =>
      (renumbered f).expr e' = unplaced.expr (.block b)
  /-- The header of a loop in brackets. -/
  header : ∀ es tier rest, 1 ≤ n → (∀ e ∈ es, Fits table numeral (n - 1) (.expr e)) →
    Quiet rest →
    Gives f (inner.expr tier)
      (.mark .openBracket :: items numeral es ++ .mark .closeBracket :: rest) rest fun e' =>
        ∃ es' span, e' = .array es' span ∧ (renumbered f).exprs es' = unplaced.exprs es
  block : ∀ b rest, Fits table numeral (n + 2) (.block b) →
    Yields f inner.block (Written.block numeral b ++ rest) rest fun b' =>
      (renumbered f).block b' = unplaced.block b

section Level

variable {table : Table} {numeral : Double → String} {f : Nat → Nat} {inner : Level} {n : Nat}

/-! ## Operands and operators -/

/-- A parenthesis starts an operand or ends what stands before it. -/
theorem startsOperand_of_kind {s : State} {ws : List Word} (hs : Stands f ws s)
    (h : firstKind ws = .openParen ∨ firstKind ws = .closeParen) :
    table.startsOperand s.rest = decide (firstKind ws = .openParen) := by
  rw [← hs.kind] at h ⊢
  -- Neither parenthesis is a name, so nothing further on is looked at.
  cases hrest : s.rest with
  | nil =>
    rw [State.kind_nil hrest] at h
    rcases h with h | h <;> cases h
  | cons t ts =>
    rw [State.kind_cons hrest] at h ⊢
    rcases h with h | h <;> simp [Table.startsOperand, h]

/-- Before quiet words an expression is over. -/
theorem gives_operators_quiet (limit : Tier) (left : Expr) {rest : List Word} (h : Quiet rest)
    {P : Expr → Prop} (hleft : P left) :
    Gives f (inner.operators table limit left) rest rest P := by
  rw [operators_eq]
  refine Gives.state_bind ?_
  intro s hs
  -- Whatever the next token says, its kind is none of an operator.
  have htier : table.tier? s.token = none := by
    rcases h with ⟨hword, hkind⟩
    rw [← hs.kind] at hword hkind
    exact (if_neg hword).trans hkind
  rw [htier]
  exact Gives.pure hleft

/-- Every operator is taken at the lowest tier. -/
theorem tighter_lowest {t : Token} {tier : Tier} (h : table.tier? t = some tier) :
    tier.tighter .lowest = true := by
  unfold Table.tier? at h
  split at h
  · split at h
    · rcases Option.some.inj h with rfl
      unfold Tier.ofWord
      split
      · rfl
      · split <;> rfl
    · cases h
  · unfold Tier.ofKind? at h
    split at h <;> first | cases h; rfl | cases h

/-- A command that may stand between two operands is an operator. -/
theorem exists_tier {t : Token} {command : Name} (hspells : (Written.command command).Spells t)
    (h : table.isInfixCommand command.text = true) : ∃ tier, table.tier? t = some tier := by
  rcases hspells with ⟨hkind, hvalue⟩
  rw [← Option.isSome_iff_exists]
  unfold Table.isInfixCommand at h
  unfold Table.tier?
  rw [hkind, hvalue]
  by_cases hword : commandKind command.text = .identifier
  · rw [if_pos hword] at h ⊢
    rw [if_pos h]
    rfl
  · rw [if_neg hword] at h ⊢
    exact h

/-- How an operator is kept in the tree is told by its kind. -/
theorem joint_joined (op : Token) (left right : Expr) :
    joined op left right =
      .binary (jointOf op.kind) left ⟨op.value, op.span⟩ right (left.span.join right.span) := by
  unfold joined jointOf
  split <;> simp_all

/-! ## Operands -/

/-- Words in parentheses start with one and go on behind the other. -/
theorem inParens_append (ws rest : List Word) :
    inParens ws ++ rest = .mark .openParen :: (ws ++ .mark .closeParen :: rest) := by
  simp [inParens]

/-- A mark that is no operator ends an expression. -/
theorem quiet_mark {kind : Kind} (h : kind ≠ .identifier ∧ Tier.ofKind? kind = none)
    (ws : List Word) : Quiet (.mark kind :: ws) :=
  h

/-- A token that is expected and there is read. -/
theorem gives_expect (kind : Kind) (expectation : String) (rest : List Word) :
    Gives f (expect kind expectation) (.mark kind :: rest) rest fun _ => True := by
  refine Gives.kind_bind kind rfl ?_
  rw [if_pos rfl]
  exact Gives.lift_bind (yields_mark kind) fun _ _ => Gives.pure trivial

/-- A number is read back if its text is read as its value. -/
theorem gives_number {value : Double} (h : Numeral.read? (numeral value) = some value)
    (span : Span) (rest : List Word) :
    Gives f Level.numberLiteral (.text .number (numeral value) :: rest) rest fun e' =>
      (renumbered f).expr e' = unplaced.expr (.number value span) := by
  refine Gives.state_bind ?_
  intro s hs
  rcases hs.token with ⟨_, hvalue⟩
  simp only [hvalue, h]
  exact Gives.lift_bind (yields_text _ _) fun _ _ => Gives.pure rfl

/-- Behind a name that stands for itself the parenthesis closes. -/
theorem gives_named_self (inner : Level) (name : Name) (rest : List Word) :
    Gives f (inner.named table) (.text .identifier name.text :: .mark .closeParen :: rest)
      (.mark .closeParen :: rest) fun e' =>
        (renumbered f).expr e' = unplaced.expr (.name name) := by
  refine Gives.lift_bind (yields_text _ _) ?_
  intro t hread
  rcases hread with ⟨_, hvalue⟩
  refine Gives.state_bind ?_
  intro s hs
  have hstarts : table.startsOperand s.rest = false := startsOperand_of_kind hs (.inr rfl)
  simp only [hstarts, Bool.and_false, Bool.false_eq_true, ↓reduceIte]
  refine Gives.pure ?_
  rw [hvalue]
  rfl

/-- A command in front of its operand in parentheses. -/
theorem applied_eq {t : Token} {command : Name} {operand operand' : Expr} {span : Span}
    (hvalue : t.value = command.text)
    (h : (renumbered f).expr operand' = unplaced.expr operand) :
    (renumbered f).expr (applied t operand') =
      unplaced.expr (.unary command operand span) := by
  rw [applied, Recast.expr, Recast.expr, h, hvalue]
  rfl

namespace Level.Reads

variable (hr : inner.Reads table numeral f n) {e : Expr} {rest : List Word}
include hr

/-- A unary command with a name is read back, with its operand in parentheses. -/
theorem gives_named (command : Name) (hlocal : isLocalName command.text = false) (span : Span)
    (h : Fits table numeral n (.expr e)) (hrest : Quiet rest) :
    Gives f (inner.named table)
      (.text .identifier command.text :: inParens (Written.expr numeral e) ++ rest) rest
      fun e' => (renumbered f).expr e' = unplaced.expr (.unary command e span) := by
  refine Gives.lift_bind (yields_text _ _) ?_
  intro t hread
  rcases hread with ⟨_, hvalue⟩
  refine Gives.state_bind ?_
  intro s hs
  have hstarts : table.startsOperand s.rest = true := startsOperand_of_kind hs (.inl rfl)
  simp only [hvalue, hlocal, hstarts, Bool.not_false, Bool.and_self, ↓reduceIte]
  exact Gives.bind (hr.parens e .unary rest h hrest) fun e' he =>
    Gives.pure (applied_eq hvalue he)

/-- So is one that is written with a keyword or a sign. -/
theorem gives_prefixed (kind : Kind) (command : Name) (span : Span)
    (h : Fits table numeral n (.expr e)) (hrest : Quiet rest) :
    Gives f inner.prefixed
      (.text kind command.text :: inParens (Written.expr numeral e) ++ rest) rest
      fun e' => (renumbered f).expr e' = unplaced.expr (.unary command e span) := by
  refine Gives.lift_bind (yields_text _ _) ?_
  intro t hread
  rcases hread with ⟨_, hvalue⟩
  exact Gives.bind (hr.parens e .unary rest h hrest) fun e' he =>
    Gives.pure (applied_eq hvalue he)

/-- What stands in parentheses is read back with a level less. -/
theorem gives_grouped (h : Fits table numeral (n + 1) (.expr e)) :
    Gives f inner.grouped (inParens (Written.expr numeral e) ++ rest) rest fun e' =>
      (renumbered f).expr e' = unplaced.expr e := by
  rw [inParens_append]
  refine Gives.lift_bind (yields_mark _) ?_
  intro _ _
  refine Gives.bind (hr.bare e rest h) ?_
  intro e' he
  exact Gives.bind (gives_expect _ _ _) fun _ _ => Gives.pure he

/-- The elements of an array are read back, up to its bracket. -/
theorem gives_items {es : List Expr} (h : ∀ e ∈ es, Fits table numeral n (.expr e)) :
    Gives f (commaList .closeBracket "`,` or `]`" (inner.expr .lowest))
      (items numeral es ++ .mark .closeBracket :: rest) (.mark .closeBracket :: rest)
      fun es' => (renumbered f).exprs es' = unplaced.exprs es := by
  induction es with
  | nil =>
    rw [commaList_eq (by decide), items, List.nil_append]
    refine Gives.kind_bind .closeBracket rfl ?_
    rw [if_pos rfl]
    exact Gives.pure rfl
  | cons e es ih =>
    have hfirst := h e List.mem_cons_self
    have hothers := ih fun e' he' => h e' (List.mem_cons_of_mem _ he')
    rw [commaList_eq (by decide)]
    -- A comma follows just if there is another element.
    cases es with
    | nil =>
      rw [items]
      refine Gives.kind_bind .openParen rfl ?_
      rw [if_neg (by decide)]
      refine Gives.bind (hr.parens e .lowest _ hfirst (quiet_mark (by decide) _)) ?_
      intro e' he
      refine Gives.kind_bind .closeBracket rfl ?_
      rw [if_neg (by decide), if_pos rfl]
      refine Gives.pure ?_
      rw [Recast.exprs, Recast.exprs, he]
      rfl
    | cons e₂ es =>
      rw [items, List.append_assoc, List.cons_append]
      · refine Gives.kind_bind .openParen rfl ?_
        rw [if_neg (by decide)]
        refine Gives.bind (hr.parens e .lowest _ hfirst (quiet_mark (by decide) _)) ?_
        intro e' he
        refine Gives.kind_bind .comma rfl ?_
        rw [if_pos rfl]
        refine Gives.lift_bind (yields_mark _) ?_
        intro _ _
        refine Gives.bind hothers ?_
        intro es' hes
        apply Gives.pure
        rw [Recast.exprs, Recast.exprs, he, hes]
      · intro hnil
        cases hnil

/-- So is an array, and it is known to be one. -/
theorem gives_arrayLiteral {es : List Expr} (h : ∀ e ∈ es, Fits table numeral n (.expr e)) :
    Gives f inner.arrayLiteral
      (.mark .openBracket :: items numeral es ++ .mark .closeBracket :: rest) rest
      fun e' => ∃ es' span, e' = .array es' span ∧
        (renumbered f).exprs es' = unplaced.exprs es := by
  refine Gives.lift_bind (yields_mark _) ?_
  intro _ _
  refine Gives.bind (hr.gives_items h) ?_
  intro es' hes
  refine Gives.lift_bind (yields_mark _) ?_
  intro _ _
  exact Yields.spanFrom_bind fun span => Gives.pure ⟨es', span, rfl, hes⟩

end Level.Reads

end Level

end Parse

end Sqf
