import Sqf.Proofs.Parse.Steps

/-!
# How operators are grouped

A script may be one chain `a₀ o₁ a₁ .. oₙ aₙ` of operands with operators between them. It is read
as one expression, grouped by how tightly the operators bind (`parse_chain`): what stands to the
left of an operator binds at least as tightly as it does, and what stands to its right more
tightly. So operators of one tier group to the left. This determines the tree (`Grouped.unique`).

The loop over operators is given a tier and takes the operators that bind more tightly
(`Takes`). Each right operand is one level of nesting further in and one tier tighter, so the
nesting limit is never met.
-/

namespace Sqf

/-! ## Operators and operands -/

namespace Token

/-- How tightly a token binds between two operands, beginning with 1 for the loosest operators. It
is 0 for what is no operator. Commands in front of their operand have place 8. -/
def precedence (t : Token) : Nat :=
  match t.kind with
  | .or => 1
  | .and => 2
  | .equals | .notEquals | .less | .lessEquals | .greater | .greaterEquals | .configPath => 3
  | .identifier =>
    if t.normalized = "max" ∨ t.normalized = "min" then 5
    else if t.normalized = "mod" ∨ t.normalized = "atan2" then 6
    else 4
  | .plus | .dash => 5
  | .star | .slash | .percent => 6
  | .caret => 7
  | .hash => 9
  | _ => 0

/-- A token that is an operand, and the expression that it is read as: a number, a string, or the
name of a local variable. -/
inductive Denotes (t : Token) : Expr → Prop
  | number {value : Double} (h : t.kind = .number) (hread : Numeral.read? t.value = some value) :
    Denotes t (.number value t.span)
  | string (h : t.kind = .string) : Denotes t (.string t.value t.span)
  | localName (h : t.kind = .identifier) (hlocal : isLocalName t.value = true) :
    Denotes t (.name ⟨t.value, t.span⟩)

/-- A token is one operand at most. -/
theorem Denotes.unique {t : Token} {e e' : Expr} (h : t.Denotes e) (h' : t.Denotes e') :
    e = e' := by
  cases h <;> cases h' <;> simp_all

/-- A token that is an operand. -/
def IsOperand (t : Token) : Prop := ∃ e, t.Denotes e

/-- An operand is a number, a string or a name. -/
theorem IsOperand.kind {t : Token} (h : t.IsOperand) :
    t.kind = .number ∨ t.kind = .string ∨ t.kind = .identifier := by
  obtain ⟨e, he⟩ := h
  cases he with
  | number h _ => exact .inl h
  | string h => exact .inr (.inl h)
  | localName h _ => exact .inr (.inr h)

end Token

/-- A symbol that is an operator, or a word that the table has with two operands. -/
structure Table.HasOperator (table : Table) (t : Token) : Prop where
  precedence_pos : 0 < t.precedence
  word : t.kind = .identifier → table.has t.value .binary = true

/-- Operators, each with an operand behind it. -/
def Table.HasChain (table : Table) (xs : List (Token × Token)) : Prop :=
  ∀ x ∈ xs, table.HasOperator x.1 ∧ x.2.IsOperand

section Chain

variable {table : Table} {op b : Token} {xs ys : List (Token × Token)}

/-- A chain starts with an operator and its right operand. -/
theorem Table.HasChain.of_cons (h : table.HasChain ((op, b) :: xs)) :
    table.HasOperator op ∧ b.IsOperand ∧ table.HasChain xs := by
  obtain ⟨⟨hop, hb⟩, hxs⟩ := List.forall_mem_cons.1 h
  exact ⟨hop, hb, hxs⟩

/-- The end of a chain is one. -/
theorem Table.HasChain.of_append_right (h : table.HasChain (xs ++ ys)) : table.HasChain ys :=
  fun y hy => h y (List.mem_append_right _ hy)

end Chain

/-- The tiers of the parser bind like the operators. -/
theorem Table.HasOperator.exists_tier {table : Table} {t : Token} (h : table.HasOperator t) :
    ∃ tier, table.tier? t = some tier ∧ tier.rank = t.precedence := by
  have hpos := h.precedence_pos
  have hword := h.word
  unfold Token.precedence at hpos ⊢
  unfold tier? Tier.ofKind?
  cases hk : t.kind <;> simp only [hk] at hpos hword ⊢
  case identifier =>
    refine ⟨.ofWord t.normalized, by simp [hword], ?_⟩
    unfold Tier.ofWord
    by_cases hadditive : t.normalized = "max" ∨ t.normalized = "min"
    · simp [hadditive, Tier.rank]
    · by_cases hmultiplicative : t.normalized = "mod" ∨ t.normalized = "atan2"
      · simp [hadditive, hmultiplicative, Tier.rank]
      · simp [hadditive, hmultiplicative, Tier.rank]
  all_goals first
    | exact absurd hpos (Nat.lt_irrefl 0)
    | exact ⟨_, rfl, rfl⟩

namespace Parse

/-! ## Grouping -/

/-- An expression is made of the operand `a` and of further operands behind operators, in this
order, and grouped by how tightly the operators bind. -/
inductive Grouped : Token → List (Token × Token) → Expr → Prop
  | operand {a : Token} {e : Expr} (h : a.Denotes e) : Grouped a [] e
  | join {a op b : Token} {xs ys : List (Token × Token)} {left right : Expr}
    (hleft : Grouped a xs left) (hright : Grouped b ys right)
    (hxs : ∀ x ∈ xs, op.precedence ≤ x.1.precedence)
    (hys : ∀ y ∈ ys, op.precedence < y.1.precedence) :
    Grouped a (xs ++ (op, b) :: ys) (joined op left right)

/-- An operator at the top is the last one of its tier, so no operators stand between two such. -/
theorem eq_nil_of_loosest {x x' : Token × Token} {cs ys ys' : List (Token × Token)}
    (h : x :: ys = cs ++ x' :: ys') (hys : ∀ y ∈ ys, x.1.precedence < y.1.precedence)
    (hcs : ∀ c ∈ cs, x'.1.precedence ≤ c.1.precedence) : cs = [] := by
  cases cs with
  | nil => rfl
  | cons c cs =>
    rw [List.cons_append] at h
    obtain ⟨rfl, rfl⟩ := List.cons.inj h
    have hlt := hys x' (List.mem_append_right _ List.mem_cons_self)
    have hle := hcs x List.mem_cons_self
    omega

/-- There is one way to group. -/
theorem Grouped.unique {a : Token} {xs : List (Token × Token)} {e e' : Expr} (h : Grouped a xs e)
    (h' : Grouped a xs e') : e = e' := by
  induction h generalizing e' with
  | operand h =>
    generalize hnil : ([] : List (Token × Token)) = xs at h'
    cases h' with
    | operand h' => exact h.unique h'
    | join _ _ _ _ => simp at hnil
  | @join a op b xs ys left right _ _ hxs hys ihLeft ihRight =>
    generalize hsame : xs ++ (op, b) :: ys = zs at h'
    cases h' with
    | operand _ => simp at hsame
    | @join _ op' b' xs' ys' left' right' hleft' hright' hxs' hys' =>
      -- Both trees have the same operator at the top, the last of the loosest ones.
      have hsplit : xs = xs' ∧ (op, b) :: ys = (op', b') :: ys' := by
        rcases List.append_eq_append_iff.1 hsame with ⟨cs, rfl, hcs⟩ | ⟨cs, rfl, hcs⟩
        · obtain rfl := eq_nil_of_loosest hcs hys fun c hc =>
            hxs' c (List.mem_append_right _ hc)
          exact ⟨(List.append_nil _).symm, hcs⟩
        · obtain rfl := eq_nil_of_loosest hcs hys' fun c hc =>
            hxs c (List.mem_append_right _ hc)
          exact ⟨List.append_nil _, hcs.symm⟩
      obtain ⟨rfl, hys⟩ := hsplit
      obtain ⟨hop, rfl⟩ := List.cons.inj hys
      cases hop
      rw [ihLeft hleft', ihRight hright']

/-! ## Reading -/

/-- The tokens of operators, each with the operand behind it. -/
def pairs (xs : List (Token × Token)) : List Token := xs.flatMap fun x => [x.1, x.2]

/-- Of the operators behind the operand `a` the parser takes `ys`, which bind more tightly than
`limit`, and groups them. It leaves `zs`, the first of which does not. -/
structure Taken (limit : Nat) (x : Attempt Expr) (s : State) (a : Token)
    (ys zs : List (Token × Token)) (e : Expr) (t : State) : Prop where
  grouped : Grouped a ys e
  tighter : ∀ y ∈ ys, limit < y.1.precedence
  ends : ∀ z ∈ zs.head?, z.1.precedence ≤ limit
  runs : Attempt.Runs x s e t
  rest : t.rest = pairs zs
  diagnostics : t.diagnostics = s.diagnostics

/-- The operators `xs` behind the operand `a` are taken up to a limit. -/
def Takes (limit : Nat) (x : Attempt Expr) (s : State) (a : Token) (xs : List (Token × Token)) :
    Prop :=
  ∃ ys zs e t, xs = ys ++ zs ∧ Taken limit x s a ys zs e t

/-- Before a chain the parser takes its operators up to a limit. -/
def ReadsChains (table : Table) (x : Attempt Expr) (limit : Nat) : Prop :=
  ∀ s a xs, s.rest = a :: pairs xs → a.IsOperand → table.HasChain xs → Takes limit x s a xs

section Operators

variable {table : Table} {inner : Level} {limit tier : Tier} {s u v t : State} {op : Token}
  {left right e : Expr}

/-- The loop over operators ends before one that binds no more tightly than the limit. -/
theorem operators_stops
    (h : ∀ tier, table.tier? s.token = some tier → ¬ limit.rank < tier.rank) :
    Attempt.Runs (inner.operators table limit left) s left s := by
  rw [operators_eq]
  apply Attempt.Runs.state_bind
  cases htier : table.tier? s.token with
  | none => exact Attempt.Runs.pure left
  | some tier =>
    have hlooser : ¬ tier.tighter limit = true := by simpa [Tier.tighter] using h tier htier
    simp only [hlooser]
    exact Attempt.Runs.pure left

/-- The loop over operators joins an operator that binds more tightly with its right operand. -/
theorem operators_joins (htoken : s.token = op) (htier : table.tier? op = some tier)
    (hlt : limit.rank < tier.rank) (hop : Attempt.Runs (liftM advance) s op u)
    (hright : Attempt.Runs (inner.expr tier) u right v)
    (hothers : Attempt.Runs (inner.operators table limit (joined op left right)) v e t) :
    Attempt.Runs (inner.operators table limit left) s e t := by
  have htighter : tier.tighter limit = true := by simpa [Tier.tighter] using hlt
  rw [operators_eq]
  apply Attempt.Runs.state_bind
  rw [htoken, htier]
  simp only [htighter, ↓reduceIte]
  exact hop.bind (hright.bind hothers)

/-- The loop over operators groups them onto what it has read. All that was read before binds at
least as tightly as the next operator. -/
theorem operators_takes
    (hinner : ∀ tier : Tier, limit.rank < tier.rank → ReadsChains table (inner.expr tier) tier.rank)
    {s : State} {a : Token} {ys zs : List (Token × Token)} {left : Expr} (hrest : s.rest = pairs zs)
    (hzs : table.HasChain zs) (hleft : Grouped a ys left)
    (hys : ∀ y ∈ ys, limit.rank < y.1.precedence)
    (hnext : ∀ z ∈ zs.head?, ∀ y ∈ ys, z.1.precedence ≤ y.1.precedence) :
    Takes limit.rank (inner.operators table limit left) s a (ys ++ zs) := by
  cases zs with
  | nil =>
    have htier : table.tier? s.token = none := tier?_endOfInput table (State.kind_nil hrest)
    have hstops := @operators_stops table inner limit s left (by simp [htier])
    exact ⟨ys, [], left, s, rfl, hleft, hys, by simp, hstops, hrest, rfl⟩
  | cons z zs =>
    obtain ⟨op, b⟩ := z
    obtain ⟨hop, hb, hzs⟩ := hzs.of_cons
    obtain ⟨tier, htier, hrank⟩ := hop.exists_tier
    have htoken : s.token = op := State.token_cons hrest
    by_cases hlt : limit.rank < tier.rank
    · -- The right operand takes the operators that bind more tightly than this one.
      obtain ⟨u, hu, hreported, hadvance⟩ := Attempt.Runs.advance hrest
      obtain ⟨vs, ws, right, v, rfl, hright⟩ := hinner tier hlt u b zs hu hb hzs
      have hvs : ∀ y ∈ vs, op.precedence < y.1.precedence := hrank ▸ hright.tighter
      have hop' : limit.rank < op.precedence := hrank ▸ hlt
      have hjoined : Grouped a (ys ++ (op, b) :: vs) (joined op left right) :=
        hleft.join hright.grouped (hnext _ rfl) hvs
      have hlimit : ∀ y ∈ ys ++ (op, b) :: vs, limit.rank < y.1.precedence := by
        rw [List.forall_mem_append, List.forall_mem_cons]
        exact ⟨hys, hop', fun y hy => Nat.lt_trans hop' (hvs y hy)⟩
      -- The operator that comes next binds no more tightly than this one, which binds no more
      -- tightly than those before it.
      have hnext' : ∀ w ∈ ws.head?, ∀ y ∈ ys ++ (op, b) :: vs,
          w.1.precedence ≤ y.1.precedence := by
        intro w hw
        have hle : w.1.precedence ≤ op.precedence := hrank ▸ hright.ends w hw
        rw [List.forall_mem_append, List.forall_mem_cons]
        exact ⟨fun y hy => Nat.le_trans hle (hnext _ rfl y hy), hle,
          fun y hy => Nat.le_trans hle (Nat.le_of_lt (hvs y hy))⟩
      obtain ⟨taken, others, e, t, hsplit, htaken⟩ :=
        operators_takes hinner hright.rest hzs.of_append_right hjoined hlimit hnext'
      have hruns := operators_joins htoken htier hlt hadvance hright.runs htaken.runs
      have hquiet : t.diagnostics = s.diagnostics := by
        rw [htaken.diagnostics, hright.diagnostics, hreported]
      refine ⟨taken, others, e, t, ?_, { htaken with runs := hruns, diagnostics := hquiet }⟩
      rw [← hsplit, List.append_assoc, List.cons_append]
    · have hlooser : ∀ tier', table.tier? s.token = some tier' → ¬ limit.rank < tier'.rank := by
        intro tier' htier'
        rw [htoken, htier] at htier'
        cases htier'
        exact hlt
      refine ⟨ys, (op, b) :: zs, left, s, rfl, hleft, hys, ?_, operators_stops hlooser, hrest, rfl⟩
      rintro _ ⟨⟩
      show op.precedence ≤ limit.rank
      omega
termination_by zs.length

end Operators

section Levels

variable {table : Table} {inner : Level} {s t : State} {a : Token} {xs : List (Token × Token)}

/-- The locals take no operand, so each operand is one token. -/
theorem operand_reads {ts : List Token} {e : Expr} (hrest : s.rest = a :: ts) (h : a.Denotes e) :
    ∃ t : State, Attempt.Runs (inner.operand table) s e t ∧ t.rest = ts ∧
      t.diagnostics = s.diagnostics := by
  obtain ⟨t, ht, hreported, hadvance⟩ := Attempt.Runs.advance hrest
  have htoken : s.token = a := State.token_cons hrest
  have hkind : s.kind = a.kind := State.kind_cons hrest
  refine ⟨t, ?_, ht, hreported⟩
  apply Attempt.Runs.kind_bind
  cases h with
  | number h hread =>
    rw [hkind, h]
    apply Attempt.Runs.state_bind
    simp only [htoken, hread]
    exact hadvance.bind (Attempt.Runs.pure _)
  | string h =>
    rw [hkind, h]
    exact hadvance.bind (Attempt.Runs.pure _)
  | localName h hlocal =>
    rw [hkind, h]
    refine hadvance.bind (Attempt.Runs.state_bind ?_)
    rw [hlocal]
    exact Attempt.Runs.pure _

/-- An expression groups a chain if the right operands are grouped by the level below. -/
theorem expression_readsChains {limit : Tier}
    (hinner : ∀ tier : Tier, limit.rank < tier.rank →
      ReadsChains table (inner.expr tier) tier.rank) :
    ReadsChains table (inner.expression table limit) limit.rank := by
  intro s a xs hrest ⟨e, he⟩ hxs
  obtain ⟨t, hoperand, ht, hreported⟩ := operand_reads hrest he
  obtain ⟨ys, zs, e', u, hsplit, htaken⟩ :=
    operators_takes hinner ht hxs (.operand he) (List.forall_mem_nil _)
      (fun _ _ => List.forall_mem_nil _)
  have hexpression : Attempt.Runs (inner.expression table limit) s e' u := by
    unfold Level.expression
    exact hoperand.bind htaken.runs
  have hquiet : u.diagnostics = s.diagnostics := htaken.diagnostics.trans hreported
  exact ⟨ys, zs, e', u, hsplit, { htaken with runs := hexpression, diagnostics := hquiet }⟩

/-- Each right operand binds one tier more tightly and is nested one level further in, so as many
levels suffice as there are tiers left. -/
theorem level_readsChains (table : Table) (n : Nat) {tier : Tier}
    (h : Tier.select.rank < n + tier.rank) :
    ReadsChains table ((level table n).expr tier) tier.rank := by
  induction n generalizing tier with
  | zero =>
    have hle : tier.rank ≤ Tier.select.rank := by cases tier <;> decide
    omega
  | succ n ih =>
    apply expression_readsChains
    intro tier' hlt
    exact ih (by omega)

/-- No operator is left behind an expression that has no limit. -/
theorem lowest_reads (hrest : s.rest = a :: pairs xs) (ha : a.IsOperand)
    (hxs : table.HasChain xs) :
    ∃ e t, Grouped a xs e ∧ Attempt.Runs ((level table maxNesting).expr .lowest) s e t ∧
      t.rest = [] ∧ t.diagnostics = s.diagnostics := by
  have hlevels : Tier.select.rank < maxNesting + Tier.lowest.rank := by decide
  obtain ⟨ys, zs, e, t, rfl, htaken⟩ :=
    level_readsChains table maxNesting hlevels s a xs hrest ha hxs
  cases zs with
  | nil =>
    rw [List.append_nil]
    exact ⟨e, t, htaken.grouped, htaken.runs, htaken.rest, htaken.diagnostics⟩
  | cons z zs =>
    -- Every operator binds more tightly than the lowest tier, so none is left.
    have hpos := (hxs z (List.mem_append_right _ List.mem_cons_self)).1.precedence_pos
    have hle : z.1.precedence ≤ 0 := htaken.ends z rfl
    omega

/-- An operand starts a statement. -/
theorem startsStatement_of_operand {ts : List Token} (hrest : s.rest = a :: ts)
    (ha : a.IsOperand) : StartsStatement s := by
  have hkind : s.kind = a.kind := State.kind_cons hrest
  rcases ha.kind with h | h | h
  · exact startsStatement_of_kind (hkind.trans h) (by decide)
  · exact startsStatement_of_kind (hkind.trans h) (by decide)
  · exact startsStatement_of_kind (hkind.trans h) (by decide)

/-- A chain is a statement: it begins with no keyword, and no `=` follows its first operand. -/
theorem statement_reads (hrest : s.rest = a :: pairs xs) (ha : a.IsOperand)
    (hxs : table.HasChain xs) :
    ∃ e t, Grouped a xs e ∧
      Attempt.Runs (level table maxNesting).statement s (.expression e) t ∧
      t.rest = [] ∧ t.diagnostics = s.diagnostics := by
  obtain ⟨e, t, hgrouped, hruns, ht, hreported⟩ := lowest_reads hrest ha hxs
  refine ⟨e, t, hgrouped, ?_, ht, hreported⟩
  have hkind : s.kind = a.kind := State.kind_cons hrest
  -- A name at the start could be the target of an assignment, but an operator follows.
  have hassignment : s.kindAt 1 ≠ .assignment := by
    cases xs with
    | nil => simp [State.kindAt, hrest, pairs]
    | cons x xs =>
      have hpos := (hxs x List.mem_cons_self).1.precedence_pos
      have hsecond : s.kindAt 1 = x.1.kind := by simp [State.kindAt, hrest, pairs]
      intro h
      simp [Token.precedence, ← hsecond, h] at hpos
  have hexpression :
      Attempt.Runs (level table maxNesting).expressionStmt s (.expression e) t :=
    hruns.bind (Attempt.Runs.pure _)
  unfold Level.statement
  apply Attempt.Runs.state_bind
  rcases ha.kind with h | h | h
  · simpa [hkind, h, startsControl] using hexpression
  · simpa [hkind, h, startsControl] using hexpression
  · simpa [hkind, h, startsControl, hassignment] using hexpression

end Levels

section Statements

variable {inner : Level} {enclosure : Enclosure} {s t : State} {stmt : Stmt}

/-- Where a statement is all that is left, it is the only one. -/
theorem statements_single (h : StartsStatement s) (hruns : Attempt.Runs inner.statement s stmt t)
    (ht : t.rest = []) :
    (inner.statements enclosure s).value = [stmt] ∧
      (inner.statements enclosure s).next = t := by
  have hend : t.kind = .endOfInput := State.kind_nil ht
  have hseparator : (Level.separator t).next = t := by
    rcases separator_cases t with ⟨h', -⟩ | ⟨-, -, hnext⟩ | ⟨-, h', -⟩
    · rw [hend] at h'
      cases h'
    · exact hnext
    · exact absurd (.inl hend) h'
  have hturn : (inner.turn enclosure s).value = some stmt ∧
      (inner.turn enclosure s).next = t := by
    obtain ⟨hvalue, hnext⟩ := @turn_starts inner enclosure s h
    obtain ⟨hvalue', hnext'⟩ := statementOrError_ok hruns.1
    rw [hvalue, hnext, hvalue', hnext', hruns.2, hseparator]
    exact ⟨rfl, rfl⟩
  have hlt : (inner.turn enclosure s).next.rest.length < s.rest.length := by
    rw [hturn.2, ht]
    exact List.length_pos_iff.2 (State.rest_ne_nil h.notEnd)
  obtain ⟨hvalue, hnext⟩ := many_of_some hturn.1 hlt
  rw [hturn.2] at hvalue hnext
  obtain ⟨hnil, hstays⟩ := @statements_end inner enclosure t (.inl hend)
  exact ⟨hvalue.trans (congrArg (stmt :: ·) hnil), hnext.trans hstays⟩

end Statements

section Chain

variable {table : Table} {first : Token} {others : List (Token × Token)}

/-- No token of a chain is the end of input. -/
theorem inside_of_chain (hfirst : first.IsOperand) (hothers : table.HasChain others) :
    ∀ t ∈ first :: pairs others, t.kind ≠ .endOfInput := by
  have hoperand {t : Token} (ht : t.IsOperand) : t.kind ≠ .endOfInput := by
    rcases ht.kind with h | h | h <;> simp [h]
  intro t ht
  rcases List.mem_cons.1 ht with rfl | ht
  · exact hoperand hfirst
  · obtain ⟨⟨op, b⟩, hx, hmem⟩ := List.mem_flatMap.1 ht
    obtain ⟨hop, hb⟩ := hothers _ hx
    simp only [List.mem_cons, List.not_mem_nil, or_false] at hmem
    rcases hmem with rfl | rfl
    · intro hend
      have hpos := hop.precedence_pos
      simp [Token.precedence, hend] at hpos
    · exact hoperand hb

/-- A chain of operands with operators between them is read as one statement, without a report.
It is an expression in which what stands to the left of an operator binds at least as tightly, and
what stands to its right more tightly. -/
theorem parse_chain (hfirst : first.IsOperand) (hothers : table.HasChain others)
    {finish : Option Token} (hfinish : ∀ t ∈ finish, t.kind = .endOfInput) :
    let parsed := parse table (first :: pairs others ++ finish.toList)
    parsed.diagnostics = [] ∧
      ∃ e, parsed.program.statements = [.expression e] ∧ Grouped first others e := by
  intro parsed
  have hrest := State.rest_initial (inside_of_chain hfirst hothers) hfinish
  obtain ⟨e, t, hgrouped, hruns, ht, hreported⟩ := statement_reads hrest hfirst hothers
  have hstarts := startsStatement_of_operand hrest hfirst
  obtain ⟨hvalue, hnext⟩ := @statements_single _ .file _ _ _ hstarts hruns ht
  constructor
  · show ((level table maxNesting).statements .file _).next.diagnostics.toList = []
    rw [hnext, hreported, (initial_found _).2.2.1]
  · exact ⟨e, hvalue, hgrouped⟩

/-- The tokens of `_a - 1 max 2 && _b`, where the table has `max`. The minus sign and `max` are of
one tier. -/
theorem parse_chain_max :
    let table := Table.ofSignatures [⟨"max", .binary, some ⟨.primitive .number, "", false⟩,
      some ⟨.primitive .number, "", false⟩, .primitive .number⟩]
    let a : Token := ⟨.identifier, "_a", ⟨0, 2⟩⟩
    let minus : Token := ⟨.dash, "-", ⟨3, 4⟩⟩
    let one : Token := ⟨.number, "1", ⟨5, 6⟩⟩
    let max : Token := ⟨.identifier, "max", ⟨7, 10⟩⟩
    let two : Token := ⟨.number, "2", ⟨11, 12⟩⟩
    let and : Token := ⟨.and, "&&", ⟨13, 15⟩⟩
    let b : Token := ⟨.identifier, "_b", ⟨16, 18⟩⟩
    let others := [(minus, one), (max, two), (and, b)]
    a.IsOperand ∧ table.HasChain others ∧ ∃ x y,
      (parse table (a :: pairs others ++ [.endAt 18])).program.statements = [.expression
        (joined and (joined max (joined minus (.name ⟨"_a", ⟨0, 2⟩⟩) (.number x ⟨5, 6⟩))
          (.number y ⟨11, 12⟩)) (.name ⟨"_b", ⟨16, 18⟩⟩))] := by
  intro table a minus one max two and b others
  obtain ⟨x, hx⟩ : ∃ x, Numeral.read? "1" = some x := ⟨⟨0x3FF0000000000000⟩, by decide +kernel⟩
  obtain ⟨y, hy⟩ : ∃ y, Numeral.read? "2" = some y := ⟨⟨0x4000000000000000⟩, by decide +kernel⟩
  have hmax : table.has "max" .binary = true := by decide +kernel
  have ha : a.Denotes (.name ⟨"_a", ⟨0, 2⟩⟩) := .localName rfl (by decide)
  have hb : b.Denotes (.name ⟨"_b", ⟨16, 18⟩⟩) := .localName rfl (by decide)
  have hone : one.Denotes (.number x ⟨5, 6⟩) := .number rfl hx
  have htwo : two.Denotes (.number y ⟨11, 12⟩) := .number rfl hy
  have hothers : table.HasChain others := by
    intro p hp
    simp only [others, List.mem_cons, List.not_mem_nil, or_false] at hp
    rcases hp with rfl | rfl | rfl
    · exact ⟨⟨by decide, nofun⟩, _, hone⟩
    · exact ⟨⟨by decide +kernel, fun _ => hmax⟩, _, htwo⟩
    · exact ⟨⟨by decide, nofun⟩, _, hb⟩
  have hdifference : Grouped a ([] ++ (minus, one) :: []) _ :=
    .join (.operand ha) (.operand hone) (by decide) (by decide)
  have hmaximum : Grouped a ([(minus, one)] ++ (max, two) :: []) _ :=
    .join hdifference (.operand htwo) (by decide +kernel) (by decide)
  have hboth : Grouped a ([(minus, one), (max, two)] ++ (and, b) :: []) _ :=
    .join hmaximum (.operand hb) (by decide +kernel) (by decide)
  have hfinish : ∀ t ∈ some (Token.endAt 18), t.kind = .endOfInput := by
    rintro _ ⟨⟩
    rfl
  obtain ⟨-, e, hstatements, hgrouped⟩ := parse_chain ⟨_, ha⟩ hothers hfinish
  refine ⟨⟨_, ha⟩, hothers, x, y, ?_⟩
  rw [hboth.unique hgrouped]
  exact hstatements

end Chain

end Parse

end Sqf
