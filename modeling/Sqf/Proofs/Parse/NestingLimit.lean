import Sqf.Proofs.Parse.RoundTrip
import Sqf.Proofs.Parse.Sound

/-!
# The nesting limit and the height of trees

What may be nested is limited, and with it the turns on the way down a tree
(`height_parse_le`). A chain of operators is not nested: the loop over operators makes the
left operand grow as long as there are operators, so a tree may be as high as its script is
long (`lt_height_parse_chain`).
-/

namespace Sqf.Parse

/-! ## Turns -/

/-- The invariant that says nothing. -/
def Invariant.trivial : Invariant where
  state _ := True
  span _ := True
  leaf _ := True
  reported _ := True
  token _ := True.intro
  leafOf _ _ _ := True.intro
  drop _ _ := True.intro
  finish _ _ := True.intro
  spanReported _ := True.intro
  plain _ _ := True.intro
  number _ _ _ := True.intro
  report _ _ := True.intro
  freshId _ := True.intro
  stall _ := True.intro
  pointStart _ := True.intro
  pointStop _ := True.intro
  join _ _ := True.intro
  spanFrom _ _ := True.intro
  passed _ _ _ _ := True.intro

/-- Each level of nesting takes two turns at most: one into a block and one to its statements. -/
theorem turns_parse_le (table : Table) (tokens : List Token) :
    (Node.program (parse table tokens).program).turns ≤ 2 * maxNesting + 3 := by
  obtain ⟨-, hstatements⟩ := Level.statements_sound
    (level_sound .trivial table maxNesting) .file (.initial tokens) True.intro
  refine Node.turns_le_iff.2 ⟨nofun, ?_⟩
  intro m hm
  obtain ⟨a, ha, rfl⟩ := List.mem_map.1 hm
  exact Nat.lt_succ_of_le (hstatements a ha).turns

/-- No way down the tree of a script takes more than four turns for each level of nesting and four
more, so only chains of operators make it higher. -/
theorem height_parse_le (table : Table) (tokens : List Token) :
    let tree := Node.program (parse table tokens).program
    tree.turns ≤ 4 * maxNesting + 4 ∧
      tree.height ≤ (4 * maxNesting + 5) * (tree.longestChain + 1) := by
  intro tree
  have hturns : tree.turns ≤ 4 * maxNesting + 4 :=
    Nat.le_trans (turns_parse_le table tokens) (by decide)
  exact ⟨hturns, Nat.le_trans (Node.height_le tree)
    (Nat.mul_le_mul_right _ (Nat.succ_le_succ hturns))⟩

/-! ## Chains of operators -/

/-- The tokens of `+1`, `n` times, from an offset on. -/
def addends (start : Nat) : Nat → List Token
  | 0 => []
  | n + 1 => ⟨.plus, "+", ⟨start, start + 1⟩⟩ :: ⟨.number, "1", ⟨start + 1, start + 2⟩⟩ ::
      addends (start + 2) n

/-- The tokens of `1+1+..+1`, with `n` operators. -/
def chainTokens (n : Nat) : List Token :=
  ⟨.number, "1", ⟨0, 1⟩⟩ :: addends 1 n ++ [Token.endAt (2 * n + 1)]

/-- The words of `+1`, `n` times. -/
def addendWords : Nat → List Word
  | 0 => []
  | n + 1 => .text .plus "+" :: .text .number "1" :: addendWords n

theorem spelled_addends (start n : Nat) : Spelled (addendWords n) (addends start n) := by
  induction n generalizing start with
  | zero => exact .nil
  | succ n ih => exact .cons ⟨rfl, rfl⟩ (.cons ⟨rfl, rfl⟩ (ih (start + 2)))

section Chain

variable {table : Table} {f : Nat → Nat} {inner : Level}

theorem gives_one (ws : List Word) :
    Gives f (inner.operand table) (.text .number "1" :: ws) ws fun _ => True := by
  have hone : Numeral.read? "1" = some ⟨0x3FF0000000000000⟩ := by decide +kernel
  refine Gives.kind_bind .number rfl ?_
  exact (@gives_number (fun _ => "1") f _ hone {} ws).mono fun _ _ => True.intro

theorem tier?_plus {t : Token} (h : t.kind = .plus) : table.tier? t = some .additive := by
  simp [Table.tier?, h, Tier.ofKind?]

/-- The right operand of a plus sign is over at the next one. -/
theorem gives_addend (n : Nat) :
    Gives f (inner.expression table .additive) (.text .number "1" :: addendWords n)
      (addendWords n) fun _ => True := by
  refine Gives.bind (gives_one _) fun e _ => ?_
  cases n with
  | zero => exact gives_operators_quiet .additive e ⟨by decide, rfl⟩ True.intro
  | succ n =>
    rw [operators_eq]
    refine Gives.state_bind fun s hs => ?_
    rw [tier?_plus hs.kind]
    exact Gives.pure True.intro

/-- All operators are taken, each with what was read before it as its left operand. -/
theorem gives_chain
    (hinner : ∀ n, Gives f (inner.expr .additive) (.text .number "1" :: addendWords n)
      (addendWords n) fun _ => True) (n : Nat) (left : Expr) :
    Gives f (inner.operators table .lowest left) (addendWords n) [] fun e => n ≤ e.chain := by
  -- For the induction, the chain that the left operand already has counts as well.
  suffices hgrows : Gives f (inner.operators table .lowest left) (addendWords n) [] fun e =>
      left.chain + n ≤ e.chain from
    hgrows.mono fun e he => Nat.le_trans (Nat.le_add_left _ _) he
  induction n generalizing left with
  | zero => exact gives_operators_quiet .lowest left ⟨by decide, rfl⟩ (Nat.le_refl _)
  | succ n ih =>
    rw [operators_eq]
    refine Gives.state_bind fun s hs => ?_
    rw [tier?_plus hs.kind]
    refine Gives.lift_bind (yields_text _ _) fun op _ => ?_
    refine Gives.bind (hinner n) fun right _ => (ih (joined op left right)).mono fun e he => ?_
    have hjoined : (joined op left right).chain = left.chain + 1 := by
      simp [joined, Expr.chain]
    omega

/-- A turn of the loop over statements reads the whole chain. -/
theorem yields_turn_chain {n : Nat}
    (hinner : Gives f (inner.expr .lowest) (.text .number "1" :: addendWords n) []
      fun e => n ≤ e.chain) :
    Yields f (inner.turn .file) (.text .number "1" :: addendWords n) [] fun found =>
      ∃ e, found = some (.expression e) ∧ n ≤ e.chain := by
  have hstatement : Gives f inner.statement (.text .number "1" :: addendWords n) []
      fun a => ∃ e, a = .expression e ∧ n ≤ e.chain := by
    refine Gives.state_bind fun s hs => ?_
    have hkind : s.kind = .number := hs.kind
    simp only [hkind, startsControl, reduceCtorEq, decide_false, Bool.false_and,
      Bool.false_eq_true, ↓reduceIte]
    exact Gives.bind hinner fun e he => Gives.pure ⟨e, rfl, he⟩
  have hseparates : Separates .file [] [] := .inr ⟨rfl, .inl rfl⟩
  have hturn : Yields f inner.statementOrError (.text .number "1" :: addendWords n) []
      fun a => ∃ e, a = .expression e ∧ n ≤ e.chain :=
    Yields.state_bind fun s _ => Yields.run_bind hstatement fun a ha =>
      Yields.bind (yields_separator hseparates) fun _ _ => Yields.pure ha
  intro s hs
  have hkind : s.kind = .number := hs.kind
  obtain ⟨hvalue, hnext⟩ :=
    @turn_starts inner .file s (startsStatement_of_kind hkind (by decide))
  obtain ⟨⟨e, he, hchain⟩, hstands⟩ := hturn s hs
  rw [hvalue, hnext, he]
  exact ⟨⟨e, rfl, hchain⟩, hstands⟩

end Chain

theorem stands_chainTokens (n : Nat) :
    ∃ f, Stands f (.text .number "1" :: addendWords n) (State.initial (chainTokens n)) := by
  have hrest : (State.initial (chainTokens n)).rest =
      ⟨.number, "1", ⟨0, 1⟩⟩ :: addends 1 n := by
    rw [chainTokens, initial_append_end rfl]
  obtain ⟨f, hf⟩ := exists_takesBack (.text .number "1" :: addendWords n)
    (State.initial (chainTokens n)).nextId
  refine ⟨f, ?_, hf⟩
  rw [hrest]
  exact .cons ⟨rfl, rfl⟩ (spelled_addends 1 n)

/-- A tree is as high as a chain of operators is long. -/
theorem lt_height_parse_chain (table : Table) (n : Nat) :
    n + 2 < (Node.program (parse table (chainTokens n)).program).height := by
  obtain ⟨f, hstands⟩ := stands_chainTokens n
  -- The chain takes one level of nesting, and the right operands all take the next one.
  have haddend (k : Nat) : Gives f ((level table (maxNesting - 1)).expr .additive)
      (.text .number "1" :: addendWords k) (addendWords k) fun _ => True :=
    @gives_addend table f (level table (maxNesting - 2)) k
  have hexpr : Gives f ((level table maxNesting).expr .lowest)
      (.text .number "1" :: addendWords n) [] fun e => n ≤ e.chain :=
    Gives.bind (@gives_one table f (level table (maxNesting - 1)) _) fun e _ =>
      gives_chain haddend n e
  obtain ⟨⟨e, hvalue, hchain⟩, hbehind, -⟩ := yields_turn_chain hexpr _ hstands
  have hread : ((level table maxNesting).turn .file (.initial (chainTokens n))).next.rest.length <
      (State.initial (chainTokens n)).rest.length := by
    rw [hstands.length, hbehind.length]
    exact Nat.succ_pos _
  have hstatements := (many_of_some hvalue hread).1
  have hmem : Node.stmt (.expression e) ∈
      (Node.program (parse table (chainTokens n)).program).children := by
    refine List.mem_map_of_mem ?_
    show _ ∈ ((level table maxNesting).statements .file (.initial (chainTokens n))).value
    rw [Level.statements, hstatements]
    exact List.mem_cons_self
  have hprogram := Node.height_lt_of_mem_children hmem
  have hstmt : (Node.expr e).height < (Node.stmt (.expression e)).height :=
    Node.height_lt_of_mem_children (by simp [Node.children])
  have hexprHeight := Node.chain_lt_height e
  omega

/-- With 515 operators the tree is higher than what the nesting limit allows for without them. -/
theorem height_parse_chain_515 :
    4 * maxNesting + 4 < (Node.program (parse .empty (chainTokens 515)).program).height - 1 := by
  have hheight := lt_height_parse_chain .empty 515
  have hlimit : 4 * maxNesting + 4 = 516 := rfl
  omega

end Sqf.Parse
