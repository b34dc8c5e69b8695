import Sqf.Proofs.Parse.Leaves
import Sqf.Proofs.Parse.Steps

/-!
# Reading that reports nothing

A part of the reading that adds no report has read some tokens, and what it gives
holds all of their code. `Keeps` says this of one parser, for tokens with loop
headers that fit. Reports are never taken back, so a parser made of two parts adds
none only if neither part does.
-/

namespace Sqf.Parse

/-- No report is taken back, and if none is added, the value and the tokens that were read are
related by `Q`. -/
def Keeps (p : Parse α) (Q : α → List Token → Prop) (s : State) : Prop :=
  headersFit s.rest = true → s.diagnostics.size ≤ (p s).next.diagnostics.size ∧
    ((p s).next.diagnostics.size = s.diagnostics.size →
      ∃ ts, s.rest = ts ++ (p s).next.rest ∧ Q (p s).value ts)

/-- The same of a parser that may fail, of which something is said only if it gives a value. -/
def KeepsOrFails (x : Attempt α) (Q : α → List Token → Prop) (s : State) : Prop :=
  Keeps x.run (fun outcome ts => ∀ a, outcome = .ok a → Q a ts) s

section Rules

variable {s : State} {P : α → List Token → Prop} {Q : β → List Token → Prop}

/-- What is known of the tokens that are read may be weakened. -/
theorem Keeps.weaken {p : Parse α} {Q : α → List Token → Prop} (h : Keeps p P s)
    (hQ : ∀ a ts, P a ts → Q a ts) : Keeps p Q s := by
  intro hfit
  rcases h hfit with ⟨hgrows, hread⟩
  refine ⟨hgrows, fun hclean => ?_⟩
  rcases hread hclean with ⟨ts, hrest, hP⟩
  exact ⟨ts, hrest, hQ _ _ hP⟩

/-- One parser behind the other has read the tokens of both. If nothing is added to the reports at
the end then nothing was added in between. -/
theorem Keeps.bind_run {p : Parse α} {f : α → Parse β} (h : Keeps p P s)
    (hf : Keeps (f (p s).value) (fun b us => ∀ ts, P (p s).value ts → Q b (ts ++ us)) (p s).next) :
    Keeps (p >>= f) Q s := by
  intro hfit
  rcases h hfit with ⟨hgrows, hread⟩
  rcases hf (headersFit_suffix (p s).suffix hfit) with ⟨hgrows', hread'⟩
  refine ⟨Nat.le_trans hgrows hgrows', fun hclean => ?_⟩
  have hclean' : (f (p s).value (p s).next).next.diagnostics.size = s.diagnostics.size := hclean
  rcases hread (by omega) with ⟨ts, hrest, hP⟩
  rcases hread' (by omega) with ⟨us, hrest', hQ⟩
  refine ⟨ts ++ us, ?_, hQ ts hP⟩
  rw [hrest, hrest', List.append_assoc]
  rfl

/-- The same if the second parser keeps what it reads in whatever state it starts. -/
theorem Keeps.bind {p : Parse α} {f : α → Parse β} (h : Keeps p P s)
    (hf : ∀ a t, Keeps (f a) (fun b us => ∀ ts, P a ts → Q b (ts ++ us)) t) :
    Keeps (p >>= f) Q s :=
  h.bind_run (hf _ _)

/-- A result that is given without reading has to hold no code. -/
theorem Keeps.pure {b : β} (h : Q b []) : Keeps (Pure.pure b) Q s :=
  fun _ => ⟨Nat.le_refl _, fun _ => ⟨[], rfl, h⟩⟩

/-- A look at the kind of the next token reads nothing. -/
theorem Keeps.kind_bind {f : Kind → Parse β} (h : Keeps (f s.kind) Q s) :
    Keeps (Parse.kind >>= f) Q s :=
  h

/-- Nor does a look at the state. -/
theorem Keeps.state_bind {f : State → Parse β} (h : Keeps (f s) Q s) :
    Keeps (state >>= f) Q s :=
  h

/-- One token is read if it is not the end of input, which stays. -/
theorem Keeps.advance (hne : s.kind ≠ .endOfInput) :
    Keeps Parse.advance (fun t ts => ts = [t]) s := by
  rcases State.exists_cons hne with ⟨ts, hts⟩
  intro _
  rw [value_advance, next_advance hts]
  exact ⟨Nat.le_refl _, fun _ => ⟨[s.token], hts, rfl⟩⟩

/-- A token is read that is not the end of input. -/
theorem Keeps.advance_bind {f : Token → Parse β} {k : Kind} (hk : s.kind = k)
    (hne : k ≠ .endOfInput)
    (hf : ∀ t u, s.rest = t :: u.rest → t.kind = k → Keeps (f t) (fun b us => Q b (t :: us)) u) :
    Keeps (Parse.advance >>= f) Q s := by
  subst hk
  rcases State.exists_cons hne with ⟨ts, hts⟩
  have hrest : s.rest = s.token :: (Parse.advance s).next.rest := by rw [next_advance hts, hts]
  refine (Keeps.advance hne).bind_run ?_
  rw [value_advance]
  refine (hf s.token _ hrest rfl).weaken ?_
  rintro b us hQ _ rfl
  exact hQ

/-- What is reported is not clean. -/
theorem Keeps.report (d : Diagnostic) : Keeps (Parse.report d) (fun _ _ => False) s := by
  intro _
  have hsize : (Parse.report d s).next.diagnostics.size = s.diagnostics.size + 1 :=
    Array.size_push _
  exact ⟨by omega, fun hclean => by omega⟩

/-- A report is added, so there is nothing to be kept. -/
theorem Keeps.reportUnexpected (expectation : String) :
    Keeps (Parse.reportUnexpected expectation) (fun _ _ => False) s :=
  Keeps.report (s.unexpected expectation)

/-- Tokens that are passed over count as read. What they hold must be accounted for by whoever
passes over them. -/
theorem Keeps.skip (n : Nat) : Keeps (Parse.skip n) (fun _ ts => ts = s.rest.take n) s :=
  fun _ => ⟨Nat.le_refl _, fun _ => ⟨_, (List.take_append_drop n s.rest).symm, rfl⟩⟩

/-- Passing over tokens adds no report, whichever they are. -/
theorem Keeps.skipUntil (stops : List Kind) :
    Keeps (Parse.skipUntil stops) (fun _ _ => True) s :=
  Keeps.state_bind ((Keeps.skip _).weaken fun _ _ _ => trivial)

theorem Keeps.spanFrom (start : Span) : Keeps (Parse.spanFrom start) (fun _ ts => ts = []) s :=
  fun _ => ⟨Nat.le_refl _, fun _ => ⟨[], rfl, rfl⟩⟩

theorem Keeps.freshId : Keeps Parse.freshId (fun _ ts => ts = []) s :=
  fun _ => ⟨Nat.le_refl _, fun _ => ⟨[], rfl, rfl⟩⟩

theorem Keeps.stall : Keeps Parse.stall (fun _ ts => ts = []) s :=
  fun _ => ⟨Nat.le_refl _, fun _ => ⟨[], rfl, rfl⟩⟩

theorem Keeps.skipSpan (n : Nat) : Keeps (Parse.skipSpan n) (fun _ _ => True) s :=
  Keeps.state_bind ((Keeps.skip n).bind fun _ _ => Keeps.state_bind (Keeps.pure fun _ _ => trivial))

/-- What is nested too deeply is reported, so nothing has to be kept of it. -/
theorem Keeps.skipNested : Keeps Parse.skipNested (fun _ _ => False) s :=
  Keeps.state_bind ((Keeps.report _).bind fun _ _ =>
    (Keeps.skipSpan _).weaken fun _ _ _ _ hfalse => hfalse.elim)

theorem Keeps.synchronize (start : State) :
    Keeps (Parse.synchronize start) (fun _ _ => True) s :=
  Keeps.state_bind ((Keeps.skip _).bind fun _ _ => Keeps.state_bind (Keeps.pure fun _ _ => trivial))

/-- What is known of the tokens that are read may be weakened. -/
theorem KeepsOrFails.weaken {x : Attempt α} {Q : α → List Token → Prop} (h : KeepsOrFails x P s)
    (hQ : ∀ a ts, P a ts → Q a ts) : KeepsOrFails x Q s :=
  Keeps.weaken h fun _ ts hP a ha => hQ a ts (hP a ha)

/-- What is read stands at the front of what was left. -/
theorem KeepsOrFails.of_prefix {x : Attempt α} {Q : α → List Token → Prop}
    (h : KeepsOrFails x (fun a ts => ts <+: s.rest → Q a ts) s) : KeepsOrFails x Q s := by
  intro hfit
  rcases h hfit with ⟨hgrows, hread⟩
  refine ⟨hgrows, fun hclean => ?_⟩
  rcases hread hclean with ⟨ts, hrest, hQ⟩
  exact ⟨ts, hrest, fun a ha => hQ a ha ⟨_, hrest.symm⟩⟩

/-- A failure in the first part ends the reading and gives no result, so only the tokens up to there
are read. -/
theorem KeepsOrFails.bind_run {x : Attempt α} {f : α → Attempt β} (h : KeepsOrFails x P s)
    (hf : ∀ a, (x.run s).value = .ok a →
      KeepsOrFails (f a) (fun b us => ∀ ts, P a ts → Q b (ts ++ us)) (x.run s).next) :
    KeepsOrFails (x >>= f) Q s := by
  cases hx : (x.run s).value with
  | ok a =>
    -- If the first part succeeds the whole is one parser behind the other.
    have hrun : Keeps (x.run >>= fun _ => (f a).run)
        (fun outcome ts => ∀ b, outcome = .ok b → Q b ts) s := by
      refine Keeps.bind_run h ?_
      exact Keeps.weaken (hf a hx) fun _ us hus ts hts b hb => hus b hb ts (hts a hx)
    intro hfit
    rcases Attempt.bind_ok (f := f) hx with ⟨hvalue, hnext⟩
    rw [hvalue, hnext]
    exact hrun hfit
  | error d =>
    intro hfit
    rcases Attempt.bind_error (f := f) hx with ⟨hvalue, hnext⟩
    rcases h hfit with ⟨hgrows, hread⟩
    rw [hvalue, hnext]
    refine ⟨hgrows, fun hclean => ?_⟩
    rcases hread hclean with ⟨ts, hrest, -⟩
    exact ⟨ts, hrest, nofun⟩

/-- The same if the second part keeps what it reads in whatever state it starts. -/
theorem KeepsOrFails.bind {x : Attempt α} {f : α → Attempt β} (h : KeepsOrFails x P s)
    (hf : ∀ a t, KeepsOrFails (f a) (fun b us => ∀ ts, P a ts → Q b (ts ++ us)) t) :
    KeepsOrFails (x >>= f) Q s :=
  h.bind_run fun a _ => hf a _

/-- A first part that cannot fail keeps what it reads. -/
theorem KeepsOrFails.lift_bind {p : Parse α} {f : α → Attempt β} (h : Keeps p P s)
    (hf : ∀ a t, KeepsOrFails (f a) (fun b us => ∀ ts, P a ts → Q b (ts ++ us)) t) :
    KeepsOrFails (liftM p >>= f) Q s :=
  Keeps.bind (f := fun a => (f a).run) h fun a t =>
    Keeps.weaken (hf a t) fun _ _ hus ts hts b hb => hus b hb ts hts

/-- A look at the kind of the next token, in a parser that may fail. -/
theorem KeepsOrFails.kind_bind {f : Kind → Attempt β} (h : KeepsOrFails (f s.kind) Q s) :
    KeepsOrFails (liftM Parse.kind >>= f) Q s :=
  h

theorem KeepsOrFails.state_bind {f : State → Attempt β} (h : KeepsOrFails (f s) Q s) :
    KeepsOrFails (liftM Parse.state >>= f) Q s :=
  h

/-- A token that is read stands in front of what is read behind it. -/
theorem KeepsOrFails.advance_bind {f : Token → Attempt β} {k : Kind} (hk : s.kind = k)
    (hne : k ≠ .endOfInput)
    (hf : ∀ t u, s.rest = t :: u.rest → t.kind = k →
      KeepsOrFails (f t) (fun b us => Q b (t :: us)) u) :
    KeepsOrFails (liftM Parse.advance >>= f) Q s :=
  Keeps.advance_bind (f := fun t => (f t).run)
    (Q := fun outcome ts => ∀ b, outcome = Except.ok b → Q b ts) hk hne hf

/-- A result that is given without reading has to hold no code. -/
theorem KeepsOrFails.pure {b : β} (h : Q b []) : KeepsOrFails (Pure.pure b) Q s :=
  Keeps.pure (by rintro b' hb'; cases hb'; exact h)

/-- A failure gives no result that could lose anything. -/
theorem KeepsOrFails.throw (d : Diagnostic) : KeepsOrFails (MonadExcept.throw d) Q s :=
  Keeps.pure nofun

theorem KeepsOrFails.failUnexpected (expectation : String) :
    KeepsOrFails (Parse.failUnexpected expectation) Q s :=
  KeepsOrFails.throw _

/-- A token of one kind is read, or the parser fails. -/
theorem KeepsOrFails.expect {k : Kind} (hne : k ≠ .endOfInput) (expectation : String) :
    KeepsOrFails (Parse.expect k expectation) (fun t ts => ts = [t] ∧ t.kind = k) s := by
  unfold Parse.expect
  refine KeepsOrFails.kind_bind ?_
  split
  · next hk =>
    have hadvance := KeepsOrFails.advance_bind (f := fun t => (Pure.pure t : Attempt Token)) hk hne
      (Q := fun t ts => ts = [t] ∧ t.kind = k) fun t u _ ht => KeepsOrFails.pure ⟨rfl, ht⟩
    exact hadvance
  · exact KeepsOrFails.failUnexpected _

end Rules

/-! ## Parts of constructs -/

/-- The leaves of an expression that may be absent. -/
def exprLeaves? (e : Option Expr) : List Leaf := (e.toList.map .expr).flatMap Node.leaves

/-- The leaves of a block that may be absent. -/
def blockLeaves? (b : Option Block) : List Leaf := (b.toList.map .block).flatMap Node.leaves

/-- The leaves of a part that is there. -/
theorem exprLeaves?_some (e : Expr) : exprLeaves? (some e) = (Node.expr e).leaves := by
  simp [exprLeaves?]

theorem blockLeaves?_some (b : Block) : blockLeaves? (some b) = (Node.block b).leaves := by
  simp [blockLeaves?]

/-- The parsers for what stands inside of a construct keep all code. An array that is a loop
header has at most three elements. -/
structure LevelKeeps (inner : Level) : Prop where
  expr : ∀ tier s, KeepsOrFails (inner.expr tier)
    (fun e ts => ts ≠ [] ∧ Accounts (Node.expr e).leaves ts) s
  block : ∀ s, s.kind = .openCurly →
    Keeps inner.block (fun b ts => ts ≠ [] ∧ Accounts (Node.block b).leaves ts) s
  header : ∀ s bracket ts, s.rest = bracket :: ts → bracket.kind = .openBracket →
    headerFits 3 true 0 ts = true →
    KeepsOrFails (inner.expr .unary) (fun e us => Accounts (Node.expr e).leaves us ∧
      ∃ elements span, e = .array elements span ∧ elements.length ≤ 3) s

namespace Level

variable {inner : Level} (levels : LevelKeeps inner) {s : State}

include levels

/-- A part of a construct is there if nothing is reported, and it holds the code that is read. -/
theorem part_keeps (tier : Tier) :
    Keeps (inner.part tier) (fun e ts => e.isSome ∧ Accounts (exprLeaves? e) ts) s := by
  refine Keeps.bind (levels.expr tier s) fun outcome t => ?_
  cases outcome with
  | ok e =>
    refine Keeps.pure fun ts hts => ⟨rfl, ?_⟩
    rw [List.append_nil, exprLeaves?_some]
    exact (hts e rfl).2
  | error d =>
    exact (Keeps.report d).bind fun _ _ => Keeps.pure fun _ hfalse => hfalse.elim

/-- Tokens are passed over only behind a part that is missing, and that is reported. -/
theorem partOrSkip_keeps (tier : Tier) (stops : List Kind) :
    Keeps (inner.partOrSkip tier stops) (fun e ts => e.isSome ∧ Accounts (exprLeaves? e) ts) s := by
  refine Keeps.bind (part_keeps levels tier) fun e t => ?_
  cases e with
  | none =>
    refine (Keeps.skipUntil stops).bind fun _ _ => Keeps.pure ?_
    rintro _ _ _ ⟨hsome, _⟩
    cases hsome
  | some e =>
    refine Keeps.pure fun ts hts => ?_
    rwa [List.append_nil]

/-- A branch holds the code that is read for it. -/
theorem branch_keeps : Keeps inner.branch (fun e ts => Accounts (Node.expr e).leaves ts) s := by
  refine Keeps.bind (levels.expr .unary s) fun outcome t => ?_
  cases outcome with
  | ok e =>
    refine Keeps.pure fun ts hts => ?_
    rw [List.append_nil]
    exact (hts e rfl).2
  | error d =>
    exact (Keeps.report d).bind fun _ _ => Keeps.pure fun _ hfalse => hfalse.elim

/-- A block holds the code between its braces. A missing one is reported where it is expected. -/
theorem blockPart_keeps (expectation : String) :
    Keeps (inner.blockPart expectation) (fun b ts => Accounts (blockLeaves? b) ts) s := by
  unfold blockPart
  refine Keeps.kind_bind ?_
  split
  · next hk =>
    refine Keeps.bind (levels.block s hk) fun b t => Keeps.pure fun ts hts => ?_
    rw [List.append_nil, blockLeaves?_some]
    exact hts.2
  · exact (Keeps.reportUnexpected _).bind fun _ _ => Keeps.pure fun _ hfalse => hfalse.elim

/-- The body of a loop stands behind a keyword, which is no code. -/
theorem doBody_keeps : Keeps inner.doBody (fun b ts => Accounts (blockLeaves? b) ts) s := by
  unfold doBody
  refine Keeps.kind_bind ?_
  split
  · next hk =>
    refine Keeps.advance_bind hk (by decide) fun t u _ ht => ?_
    exact (blockPart_keeps levels _).weaken fun b ts hts => hts.shape ht rfl
  · exact (Keeps.reportUnexpected _).bind fun _ _ => Keeps.pure fun _ hfalse => hfalse.elim

/-- Without a keyword the branch is missing, which is reported if the condition was there. -/
theorem ifBranch_keeps (hasCondition : Bool) :
    Keeps (inner.ifBranch hasCondition)
      (fun found ts => hasCondition = true → Accounts (Node.expr found.2).leaves ts) s := by
  -- Both keywords go on with a branch, and they are no code themselves.
  have hkeyword {t : Token} {k : Kind} (form : IfForm) (ht : t.kind = k) (hk : k.isShape = true)
      (u : State) :
      Keeps (do return (form, ← inner.branch)) (fun (found : IfForm × Expr) us =>
        hasCondition = true → Accounts (Node.expr found.2).leaves (t :: us)) u := by
    refine Keeps.bind (branch_keeps levels) fun e v => Keeps.pure fun ts hts _ => ?_
    rw [List.append_nil]
    exact hts.shape ht hk
  unfold ifBranch
  refine Keeps.kind_bind ?_
  split
  · next hk =>
    exact Keeps.advance_bind hk (by decide) fun t u _ ht => hkeyword .thenBranch ht rfl u
  · next hk =>
    exact Keeps.advance_bind hk (by decide) fun t u _ ht => hkeyword .exitWith ht rfl u
  · cases hasCondition with
    | true =>
      exact (Keeps.reportUnexpected _).bind fun _ _ =>
        Keeps.state_bind (Keeps.pure fun _ hfalse => hfalse.elim)
    | false => exact Keeps.state_bind (Keeps.pure nofun)

/-- A second branch may be left out. -/
theorem elseBranch_keeps (form : IfForm) :
    Keeps (inner.elseBranch form) (fun e ts => Accounts (exprLeaves? e) ts) s := by
  unfold elseBranch
  refine Keeps.kind_bind ?_
  split
  · next hk =>
    simp only [Bool.and_eq_true, decide_eq_true_eq] at hk
    refine Keeps.advance_bind hk.2 (by decide) fun t u _ ht => ?_
    refine Keeps.bind (branch_keeps levels) fun e v => Keeps.pure fun ts hts => ?_
    rw [List.append_nil, exprLeaves?_some]
    exact hts.shape ht rfl
  · exact Keeps.pure .nil

/-- An `if` holds its condition and its branches. -/
theorem ifThen_keeps (hk : s.kind = .ifWord) :
    Keeps inner.ifThen (fun c ts => ts ≠ [] ∧ Accounts c.leaves ts) s := by
  refine Keeps.advance_bind hk (by decide) fun start t _ hstart => ?_
  refine Keeps.bind (partOrSkip_keeps levels _ _) fun condition u => ?_
  refine Keeps.bind (ifBranch_keeps levels _) fun found v => ?_
  refine Keeps.bind (elseBranch_keeps levels _) fun otherwise w => ?_
  refine Keeps.bind (Keeps.spanFrom _) fun span x => Keeps.pure ?_
  rintro _ rfl ts hotherwise us hbranch vs ⟨hsome, hcondition⟩
  refine ⟨List.cons_ne_nil _ _, ?_⟩
  have hparts := hcondition.append ((hbranch hsome).append hotherwise)
  simpa [Control.leaves, Control.ownLeaves, Control.children, exprLeaves?] using
    hparts.shape hstart rfl

/-- A `while` holds its condition and its body. -/
theorem whileDo_keeps (hk : s.kind = .whileWord) :
    Keeps inner.whileDo (fun c ts => ts ≠ [] ∧ Accounts c.leaves ts) s := by
  refine Keeps.advance_bind hk (by decide) fun start t _ hstart => ?_
  refine Keeps.bind (partOrSkip_keeps levels _ _) fun condition u => ?_
  refine Keeps.bind (doBody_keeps levels) fun body v => ?_
  refine Keeps.bind (Keeps.spanFrom _) fun span w => Keeps.pure ?_
  rintro _ rfl ts hbody us ⟨-, hcondition⟩
  refine ⟨List.cons_ne_nil _ _, ?_⟩
  simpa [Control.leaves, Control.ownLeaves, Control.children, exprLeaves?, blockLeaves?] using
    (hcondition.append hbody).shape hstart rfl

/-- A `switch` holds its subject and its body. -/
theorem switchDo_keeps (hk : s.kind = .switchWord) :
    Keeps inner.switchDo (fun c ts => ts ≠ [] ∧ Accounts c.leaves ts) s := by
  refine Keeps.advance_bind hk (by decide) fun start t _ hstart => ?_
  refine Keeps.bind (partOrSkip_keeps levels _ _) fun subject u => ?_
  refine Keeps.bind (doBody_keeps levels) fun body v => ?_
  refine Keeps.bind (Keeps.spanFrom _) fun span w => Keeps.pure ?_
  rintro _ rfl ts hbody us ⟨-, hsubject⟩
  refine ⟨List.cons_ne_nil _ _, ?_⟩
  simpa [Control.leaves, Control.ownLeaves, Control.children, exprLeaves?, blockLeaves?] using
    (hsubject.append hbody).shape hstart rfl

/-- A bound of a loop stands behind a keyword. -/
theorem bound_keeps {k : Kind} (hk : s.kind = k) (hshape : k.isShape = true)
    (hne : k ≠ .endOfInput) :
    Keeps inner.bound (fun e ts => e.isSome ∧ Accounts (exprLeaves? e) ts) s :=
  Keeps.advance_bind hk hne fun _ _ _ ht =>
    (partOrSkip_keeps levels _ _).weaken fun _ _ ⟨hsome, hts⟩ => ⟨hsome, hts.shape ht hshape⟩

/-- A bound that has to be there is reported when it is missing. -/
theorem requiredBound_keeps {keyword : Kind} (hshape : keyword.isShape = true)
    (hne : keyword ≠ .endOfInput) (expectation : String) :
    Keeps (inner.requiredBound keyword expectation)
      (fun e ts => e.isSome ∧ Accounts (exprLeaves? e) ts) s := by
  unfold requiredBound
  refine Keeps.kind_bind ?_
  split
  · next hk => exact bound_keeps levels hk hshape hne
  · exact (Keeps.reportUnexpected _).bind fun _ _ => (Keeps.skipUntil _).bind fun _ _ =>
      Keeps.pure fun _ _ _ hfalse => hfalse.elim

/-- A header with a variable and bounds holds the variable and the two or three bounds. -/
theorem rangeHeader_keeps (hk : s.kind = .string) :
    Keeps inner.rangeHeader (fun header ts => Accounts header.leaves ts) s := by
  refine Keeps.advance_bind hk (by decide) fun token t _ htoken => ?_
  -- The string that names the variable is a leaf itself.
  have hvariable {ls : List Leaf} {ts : List Token} (h : Accounts ls ts) :
      Accounts (.loopVariable ⟨token.value, token.span⟩ :: ls) (token :: ts) :=
    h.leaf (by rw [htoken]; rfl) (by rw [htoken]; rfl) ⟨htoken, rfl⟩
  refine Keeps.bind (requiredBound_keeps levels rfl (by decide) _) fun first u => ?_
  cases first with
  | none => exact Keeps.pure fun _ h => absurd h.1 nofun
  | some first =>
    refine Keeps.bind (requiredBound_keeps levels rfl (by decide) _) fun last v => ?_
    cases last with
    | none => exact Keeps.pure fun _ h => absurd h.1 nofun
    | some last =>
      refine Keeps.kind_bind ?_
      split
      · next hstep =>
        refine Keeps.bind (bound_keeps levels hstep rfl (by decide)) fun step w => Keeps.pure ?_
        rintro ts ⟨-, hstep⟩ us ⟨-, hlast⟩ vs ⟨-, hfirst⟩
        simpa [ForHeader.leaves, ForHeader.ownLeaves, ForHeader.parts, exprLeaves?] using
          hvariable (hfirst.append (hlast.append hstep))
      · refine Keeps.pure ?_
        rintro us ⟨-, hlast⟩ vs ⟨-, hfirst⟩
        simpa [ForHeader.leaves, ForHeader.ownLeaves, ForHeader.parts, exprLeaves?] using
          hvariable (hfirst.append hlast)

omit levels in
/-- The elements of an array with at most three elements are the parts of the header. -/
theorem parts_of_length_le {elements : List Expr} (h : elements.length ≤ 3) :
    (ForHeader.classic elements[0]? elements[1]? elements[2]?).parts = elements := by
  rcases elements with _ | ⟨a, _ | ⟨b, _ | ⟨c, _ | ⟨d, elements⟩⟩⟩⟩
  · rfl
  · rfl
  · rfl
  · rfl
  · simp only [List.length_cons] at h
    omega

/-- A header of three parts holds its array if this has no fourth element. That it has none is asked
of the tokens, because the parser drops a fourth without a report. -/
theorem classicHeader_keeps {bracket : Token} {ts : List Token} (hrest : s.rest = bracket :: ts)
    (hbracket : bracket.kind = .openBracket) (hfits : headerFits 3 true 0 ts = true) :
    Keeps inner.classicHeader (fun header us => Accounts header.leaves us) s := by
  -- The array is read as an operand, with its elements counted.
  have hpart : Keeps (inner.part .unary) (fun e us => ∃ elements span,
      e = some (.array elements span) ∧ elements.length ≤ 3 ∧
        Accounts (Node.expr (.array elements span)).leaves us) s := by
    refine Keeps.bind (levels.header s bracket ts hrest hbracket hfits) fun outcome t => ?_
    cases outcome with
    | ok e =>
      refine Keeps.pure fun us hus => ?_
      rcases hus e rfl with ⟨hcovers, elements, span, rfl, hlength⟩
      exact ⟨elements, span, rfl, hlength, by rwa [List.append_nil]⟩
    | error d =>
      exact (Keeps.report d).bind fun _ _ => Keeps.pure fun _ hfalse => hfalse.elim
  refine Keeps.bind hpart fun e t => ?_
  split
  · next elements span =>
    refine Keeps.pure ?_
    rintro us ⟨_, _, hsome, hlength, hcovers⟩
    cases hsome
    rw [Node.leaves_eq] at hcovers
    rw [List.append_nil, ForHeader.leaves, parts_of_length_le hlength]
    exact hcovers
  · next hother =>
    refine (Keeps.skipUntil _).bind fun _ _ => Keeps.pure ?_
    rintro _ _ _ ⟨elements, span, hsome, -⟩
    exact absurd hsome (hother elements span)

/-- A `for` holds its header and its body. That a classic header fits is known of the tokens in
front of which it stands. -/
theorem forDo_keeps (hk : s.kind = .forWord) :
    Keeps inner.forDo (fun c ts => ts ≠ [] ∧ Accounts c.leaves ts) s := by
  intro hfit
  suffices h : Keeps inner.forDo (fun c ts => ts ≠ [] ∧ Accounts c.leaves ts) s from h hfit
  refine Keeps.advance_bind hk (by decide) fun start t hrest hstart => ?_
  -- The body follows every kind of header.
  have hbody (header : ForHeader) (u : State) :
      Keeps (do
          let body ← inner.doBody
          return .forDo header body (← spanFrom start.span))
        (fun c us => ∀ ts, Accounts header.leaves ts →
          start :: (ts ++ us) ≠ [] ∧ Accounts (Control.leaves c) (start :: (ts ++ us))) u := by
    refine Keeps.bind (doBody_keeps levels) fun body v => ?_
    refine Keeps.bind (Keeps.spanFrom _) fun span w => Keeps.pure ?_
    rintro _ rfl us hbody ts hheader
    refine ⟨List.cons_ne_nil _ _, ?_⟩
    simpa [Control.leaves, ForHeader.leaves, Control.ownLeaves, Control.children, blockLeaves?]
      using (hheader.append hbody).shape hstart rfl
  refine Keeps.kind_bind ?_
  split
  · next hstring =>
    exact Keeps.bind (rangeHeader_keeps levels hstring) fun header u => hbody header u
  · next hbracket =>
    rcases State.exists_cons (s := t) (by rw [hbracket]; decide) with ⟨ts, hts⟩
    have hfits : headerFits 3 true 0 ts = true := by
      rw [hrest, hts] at hfit
      unfold headersFit at hfit
      simp only [hstart, show t.token.kind = .openBracket from hbracket] at hfit
      simp_all
    exact Keeps.bind (classicHeader_keeps levels hts hbracket hfits) fun header u => hbody header u
  · refine (Keeps.reportUnexpected _).bind fun _ _ => (Keeps.skipUntil _).bind fun _ u => ?_
    exact (hbody .missing u).weaken fun _ _ _ _ _ _ hfalse => hfalse.elim

/-- The condition of a `case`; a `default` has none. -/
theorem caseCondition_keeps (isDefault : Bool) :
    Keeps (inner.caseCondition isDefault) (fun e ts => Accounts (exprLeaves? e) ts) s := by
  unfold caseCondition
  refine Keeps.kind_bind ?_
  split
  · exact Keeps.pure .nil
  · exact (partOrSkip_keeps levels _ _).weaken fun _ _ h => h.2

omit levels in
theorem caseColon_keeps : Keeps caseColon (fun _ ts => Accounts [] ts) s := by
  unfold caseColon
  refine Keeps.kind_bind ?_
  split
  · next hk =>
    exact Keeps.advance_bind hk (by decide) fun t u _ ht => Keeps.pure (Accounts.nil.shape ht rfl)
  · exact Keeps.pure .nil

/-- A `case` may be without a block. -/
theorem caseBlock_keeps :
    Keeps inner.caseBlock (fun b ts => Accounts (blockLeaves? b) ts) s := by
  unfold caseBlock
  refine Keeps.kind_bind ?_
  split
  · next hk =>
    refine Keeps.bind (levels.block s hk) fun b t => Keeps.pure fun ts hts => ?_
    rw [List.append_nil, blockLeaves?_some]
    exact hts.2
  · exact Keeps.pure .nil

/-- A `case` or a `default` holds its condition and its block; the colon between them is no code. -/
theorem case_keeps (hk : s.kind = .caseWord ∨ s.kind = .defaultWord) :
    Keeps inner.case (fun c ts => ts ≠ [] ∧ Accounts c.leaves ts) s := by
  have hkind : s.kind.isShape = true := by rcases hk with hk | hk <;> rw [hk] <;> rfl
  have hne : s.kind ≠ .endOfInput := by rcases hk with hk | hk <;> rw [hk] <;> decide
  refine Keeps.advance_bind rfl hne fun start t _ hstart => ?_
  refine Keeps.bind (caseCondition_keeps levels _) fun condition u => ?_
  refine Keeps.bind caseColon_keeps fun _ v => ?_
  refine Keeps.bind (caseBlock_keeps levels) fun b w => ?_
  refine Keeps.bind (Keeps.spanFrom _) fun span x => Keeps.pure ?_
  rintro _ rfl ts hblock us hcolon vs hcondition
  refine ⟨List.cons_ne_nil _ _, ?_⟩
  have hparts := hcondition.append (hcolon.append hblock)
  simpa [Control.leaves, Control.ownLeaves, Control.children, exprLeaves?, blockLeaves?] using
    hparts.shape hstart hkind

/-- Each construct is told by its first keyword. -/
theorem control_keeps (hk : startsControl s.kind = true) :
    Keeps inner.control (fun c ts => ts ≠ [] ∧ Accounts c.leaves ts) s := by
  unfold control
  refine Keeps.kind_bind ?_
  split
  · next hkind => exact ifThen_keeps levels hkind
  · next hkind => exact whileDo_keeps levels hkind
  · next hkind => exact forDo_keeps levels hkind
  · next hkind => exact switchDo_keeps levels hkind
  · next hif hwhile hfor hswitch =>
    refine case_keeps levels ?_
    unfold startsControl at hk
    split at hk <;> simp_all

end Level

end Sqf.Parse
