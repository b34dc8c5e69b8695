import Mathlib.Data.List.Flatten
import Sqf.Proofs.Parse.PassesLevel
import Sqf.Proofs.Parse.Places
import Sqf.Proofs.Tree.Spans

/-!
# Trees are in the order of their source

Tokens stand one behind the other, and a node starts with the first token that is read for
it. So everything that is read between two states starts between their next tokens, and the
spans of a tree come in the order of the source (`spans_parse`).
-/

namespace Sqf

/-- A construct is no operator. -/
theorem Node.command?_of_control? {n : Node} {c : Control} (h : n.control? = some c) :
    n.command? = none := by
  rcases eq_of_control? h with rfl | rfl <;> rfl

namespace Parse

/-- Spans in the order of where they start, from `a` on and not behind `b`. -/
structure Ascending (a b : Nat) (spans : List Span) : Prop where
  le : a ≤ b
  sorted : spans.Pairwise fun x y => x.start ≤ y.start
  bounds : ∀ x ∈ spans, a ≤ x.start ∧ x.start ≤ b

namespace Ascending

variable {a b c : Nat} {xs ys : List Span}

theorem nil (h : a ≤ b) : Ascending a b [] := ⟨h, .nil, nofun⟩

/-- What lies between two places comes before what lies behind the second. -/
theorem append (h : Ascending a b xs) (hys : Ascending b c ys) : Ascending a c (xs ++ ys) := by
  constructor
  · exact Nat.le_trans h.le hys.le
  · rw [List.pairwise_append]
    refine ⟨h.sorted, hys.sorted, ?_⟩
    intro x hx y hy
    exact Nat.le_trans (h.bounds x hx).2 (hys.bounds y hy).1
  · intro x hx
    rcases List.mem_append.1 hx with hx | hx
    · exact ⟨(h.bounds x hx).1, Nat.le_trans (h.bounds x hx).2 hys.le⟩
    · exact ⟨Nat.le_trans h.le (hys.bounds x hx).1, (hys.bounds x hx).2⟩

/-- A span in front that starts where the others start at the earliest. -/
theorem cons {x : Span} (h : Ascending a b xs) (hx : x.start = a) : Ascending a b (x :: xs) := by
  constructor
  · exact h.le
  · rw [List.pairwise_cons]
    refine ⟨fun y hy => ?_, h.sorted⟩
    rw [hx]
    exact (h.bounds y hy).1
  · rw [List.forall_mem_cons, hx]
    exact ⟨⟨Nat.le_refl a, h.le⟩, h.bounds⟩

/-- A span in front that starts where the first of the others starts. -/
theorem cons_first {x y : Span} (h : Ascending a b (y :: ys)) (hx : x.start = y.start) :
    Ascending a b (x :: y :: ys) := by
  have hy := h.bounds y List.mem_cons_self
  constructor
  · exact h.le
  · rw [List.pairwise_cons, List.forall_mem_cons, hx]
    exact ⟨⟨Nat.le_refl _, (List.pairwise_cons.1 h.sorted).1⟩, h.sorted⟩
  · rw [List.forall_mem_cons, hx]
    exact ⟨hy, h.bounds⟩

/-- Between wider bounds as well. -/
theorem widen {d : Nat} (h : Ascending b c xs) (hle : a ≤ b) (hle' : c ≤ d) : Ascending a d xs :=
  ⟨Nat.le_trans hle (Nat.le_trans h.le hle'), h.sorted, fun x hx =>
    ⟨Nat.le_trans hle (h.bounds x hx).1, Nat.le_trans (h.bounds x hx).2 hle'⟩⟩

/-- Some of the spans are in order too. -/
theorem sublist (h : Ascending a b xs) (hys : ys.Sublist xs) : Ascending a b ys :=
  ⟨h.le, h.sorted.sublist hys, fun x hx => h.bounds x (hys.subset hx)⟩

/-- What is joined with the first of the spans starts where this starts. -/
theorem start_join {n : Node} {x : Span} (h : Ascending x.start b n.spans) :
    (x.join n.span).start = x.start :=
  Nat.min_eq_left (h.bounds _ n.span_mem_spans).1

/-- A node that is no operator comes before all below it. -/
theorem node {n : Node} (h : Ascending a b (n.children.flatMap Node.spans))
    (hcommand : n.command? = none) (hstart : n.span.start = a) : Ascending a b n.spans := by
  rw [Node.spans_eq hcommand]
  exact h.cons hstart

/-- A node that starts with its only part. -/
theorem first {n child : Node} (h : Ascending a b child.spans) (hcommand : n.command? = none)
    (hchildren : n.children = [child]) (hstart : n.span.start = child.span.start) :
    Ascending a b n.spans := by
  obtain ⟨inside, hinside⟩ := child.exists_spans
  rw [Node.spans_eq hcommand, hchildren, List.flatMap_singleton]
  rw [hinside] at h ⊢
  exact h.cons_first hstart

/-- An operator starts with its left operand, and its command stands between the operands. -/
theorem binary {command : Token} {left right : Expr}
    (hleft : Ascending a command.span.start (Node.expr left).spans)
    (hright : Ascending command.span.start b (Node.expr right).spans) :
    Ascending a b (Node.expr (joined command left right)).spans := by
  have hboth := hleft.append (hright.cons (x := command.span) rfl)
  obtain ⟨inside, hinside⟩ := (Node.expr left).exists_spans
  rw [joined, Node.spans_binary]
  rw [hinside, List.cons_append] at hboth ⊢
  refine hboth.cons_first (Nat.min_eq_left ?_)
  exact (List.pairwise_cons.1 hboth.sorted).1 _
    (List.mem_append_right _ (List.mem_cons_of_mem _ (Node.span_mem_spans _)))

/-- A node without children has one span. -/
theorem leaf {n : Node} (hle : a ≤ b) (hchildren : n.children = []) (hstart : n.span.start = a) :
    Ascending a b n.spans := by
  refine node ?_ (Node.command?_eq_none hchildren) hstart
  rw [hchildren]
  exact .nil hle

end Ascending

/-! ## Tokens one behind the other -/

namespace State

/-- The spans of the tokens that are left, and of the end of input. -/
def spans (s : State) : List Span := s.rest.map Token.span ++ [s.finish]

/-- The tokens that are left stand one behind the other, and all of them behind what has been
read. -/
structure Spaced (s : State) : Prop where
  apart : s.spans.Pairwise fun x y => x.stop ≤ y.start
  valid : ∀ x ∈ s.spans, x.start ≤ x.stop
  finish : s.finish.stop ≤ s.finish.start
  read : s.lastEnd ≤ s.token.span.start

/-- The next token comes first. -/
theorem spans_eq (s : State) : ∃ later, s.spans = s.token.span :: later := by
  unfold spans token
  cases s.rest with
  | nil => exact ⟨[], rfl⟩
  | cons t ts => exact ⟨_, rfl⟩

namespace Spaced

variable {s t : State}

/-- It does not end before it starts. -/
theorem token_le (hs : s.Spaced) : s.token.span.start ≤ s.token.span.stop := by
  obtain ⟨later, hspans⟩ := s.spans_eq
  exact hs.valid _ (hspans ▸ List.mem_cons_self)

/-- The end of the token that is read is not behind the next one. -/
theorem advance (hs : s.Spaced) : (Parse.advance s).next.Spaced := by
  -- At the end of the input nothing changes but the end of the last token.
  cases hrest : s.rest with
  | nil =>
    have htoken : s.token.span = s.finish := by simp [State.token, hrest]
    rw [next_advance_nil hrest]
    refine ⟨hs.apart, hs.valid, hs.finish, ?_⟩
    show s.finish.stop ≤ s.token.span.start
    rw [htoken]
    exact hs.finish
  | cons t ts =>
    have hspans : s.spans = t.span :: (Parse.advance s).next.spans := by
      rw [next_advance hrest, State.spans, hrest]
      rfl
    have hapart := hs.apart
    have hvalid := hs.valid
    rw [hspans, List.pairwise_cons] at hapart
    rw [hspans, List.forall_mem_cons] at hvalid
    refine ⟨hapart.2, hvalid.2, ?_, ?_⟩
    · rw [next_advance hrest]
      exact hs.finish
    · obtain ⟨later, hlater⟩ := (Parse.advance s).next.spans_eq
      have hstop := hapart.1 _ (hlater ▸ List.mem_cons_self)
      rw [next_advance hrest] at hstop ⊢
      exact hstop

/-- Tokens stay in order when some are read. -/
theorem mono (hs : s.Spaced) (h : s.Reaches t) : t.Spaced := by
  induction h with
  | refl => exact hs
  | advance _ ih => exact ih.advance
  | report d _ ih => exact ⟨ih.apart, ih.valid, ih.finish, ih.read⟩
  | freshId _ ih => exact ⟨ih.apart, ih.valid, ih.finish, ih.read⟩
  | stall _ ih => exact ⟨ih.apart, ih.valid, ih.finish, ih.read⟩

/-- What is read first starts first. -/
theorem le (hs : s.Spaced) (h : s.Reaches t) : s.token.span.start ≤ t.token.span.start := by
  induction h with
  | refl => exact Nat.le_refl _
  | @advance t h ih =>
    have hnext := (hs.mono h).advance.read
    rw [next_advance_eq] at hnext ⊢
    exact Nat.le_trans ih (Nat.le_trans (hs.mono h).token_le hnext)
  | report d _ ih => exact ih
  | freshId _ ih => exact ih
  | stall _ ih => exact ih

/-- The end of the last token only moves on. -/
theorem lastEnd_le (hs : s.Spaced) (h : s.Reaches t) : s.lastEnd ≤ t.lastEnd := by
  induction h with
  | refl => exact Nat.le_refl _
  | @advance t h ih =>
    rw [next_advance_eq]
    exact Nat.le_trans ih (Nat.le_trans (hs.mono h).read (hs.mono h).token_le)
  | report d _ ih => exact ih
  | freshId _ ih => exact ih
  | stall _ ih => exact ih

/-- Either no token has been read, or the next one has been. -/
theorem read_or_same (hs : s.Spaced) (h : s.Reaches t) :
    t.rest = s.rest ∧ t.lastEnd = s.lastEnd ∨ s.token.span.stop ≤ t.lastEnd := by
  induction h with
  | refl => exact .inl ⟨rfl, rfl⟩
  | @advance t h ih =>
    refine .inr ?_
    rcases ih with ⟨hrest, -⟩ | hread
    · rw [next_advance_eq, h.token_eq hrest]
    · exact Nat.le_trans hread ((hs.mono h).lastEnd_le (reaches_advance t))
  | report d _ ih => exact ih
  | freshId _ ih => exact ih
  | stall _ ih => exact ih

/-- If something has been read, the first token has. -/
theorem stop_le_of_lt (hs : s.Spaced) (h : s.Reaches t) (hlt : t.rest.length < s.rest.length) :
    s.token.span.stop ≤ t.lastEnd := by
  rcases hs.read_or_same h with ⟨hrest, -⟩ | hread
  · rw [hrest] at hlt
    exact absurd hlt (Nat.lt_irrefl _)
  · exact hread

/-- If the next token has been read, it ends no later than the last one. -/
theorem stop_le_of_advance (hs : s.Spaced) (h : (Parse.advance s).next.Reaches t) :
    s.token.span.stop ≤ t.lastEnd := by
  have hle := hs.advance.lastEnd_le h
  rwa [next_advance_eq] at hle

/-- A token that was left has been read, or is left. -/
theorem mem_or_read {token : Token} (hs : s.Spaced) (h : s.Reaches t) (htoken : token ∈ s.rest) :
    token ∈ t.rest ∨ token.span.stop ≤ t.lastEnd := by
  induction h with
  | refl => exact .inl htoken
  | @advance t h ih =>
    rcases ih with hleft | hread
    · obtain ⟨first, others, hrest⟩ := List.exists_cons_of_ne_nil (List.ne_nil_of_mem hleft)
      rw [next_advance hrest]
      rw [hrest] at hleft
      rcases List.mem_cons.1 hleft with rfl | hleft
      · exact .inr (Nat.le_refl _)
      · exact .inl hleft
    · exact .inr (Nat.le_trans hread ((hs.mono h).lastEnd_le (reaches_advance t)))
  | report d _ ih => exact ih
  | freshId _ ih => exact ih
  | stall _ ih => exact ih

/-- The next token starts before the others that are left. -/
theorem start_le_of_mem {x : Span} (hs : s.Spaced) (hx : x ∈ s.spans) :
    s.token.span.start ≤ x.start := by
  obtain ⟨later, hspans⟩ := s.spans_eq
  have hapart := hs.apart
  rw [hspans, List.pairwise_cons] at hapart
  rw [hspans] at hx
  rcases List.mem_cons.1 hx with rfl | hx
  · exact Nat.le_refl _
  · exact Nat.le_trans hs.token_le (hapart.1 _ hx)

end Spaced

end State

/-- What is read between two states is in the order of the source. -/
theorem Passage.sourceOrder {m : Manner} {s t : State} {ns : List Node} (h : Passage m s ns t)
    (hs : s.Spaced) : Ascending s.token.span.start t.token.span.start (ns.flatMap Node.spans) := by
  -- One case for each way in which nodes are made. A node starts with its first token, in front of
  -- its parts, and its command may stand among them.
  induction h with
  | pass h => exact .nil (hs.le h)
  | append h _ ih ih' =>
    rw [List.flatMap_append]
    exact (ih hs).append (ih' (hs.mono h.reaches))
  | sublist _ hsub ih => exact (ih hs).sublist (hsub.flatMap _)
  | part _ ih => exact ih hs
  | skipped hn hspan hreported hends =>
    have hle := hs.le (Passage.skipped hn hspan hreported hends).reaches
    rw [List.flatMap_singleton]
    refine .leaf hle (Node.children_of_isError hn) ?_
    rw [hspan, State.region_start]
  | @failed s d hspan =>
    rw [List.flatMap_singleton]
    refine .leaf (hs.le (reaches_report d s)) rfl ?_
    rw [← hspan]
    rfl
  | @atom s n hn hspan =>
    rw [List.flatMap_singleton]
    exact .leaf (hs.le (reaches_advance s)) (Node.leaf_of_isAtom hn).1 (congrArg Span.start hspan)
  | @array s t es h ih =>
    have hopened := reaches_advance s
    have hinside := (ih (hs.mono hopened)).widen (hs.le hopened)
      ((hs.mono (hopened.trans h.reaches)).le (reaches_advance t))
    rw [List.flatMap_singleton]
    exact hinside.node rfl rfl
  | @unary s t operand _ ih =>
    have hcommand := reaches_advance s
    have hoperand := (ih (hs.mono hcommand)).widen (hs.le hcommand) (Nat.le_refl _)
    rw [List.flatMap_singleton] at hoperand ⊢
    rw [applied, Node.spans_unary]
    exact (hoperand.cons (x := s.token.span) rfl).cons (hoperand.start_join)
  | @binary s t u left right h _ ih ih' =>
    have ht := hs.mono h.reaches
    have hcommand := reaches_advance t
    have hleft := ih hs
    have hright := (ih' (ht.mono hcommand)).widen (ht.le hcommand) (Nat.le_refl _)
    rw [List.flatMap_singleton] at hleft hright ⊢
    exact hleft.binary hright
  | @control s t c n hn hspan _ ih =>
    have hkeyword := reaches_advance s
    have hparts := (ih (hs.mono hkeyword)).widen (hs.le hkeyword) (Nat.le_refl _)
    rw [List.flatMap_singleton]
    refine Ascending.node ?_ (Node.command?_of_control? hn) ?_
    · rw [Node.children_of_control? hn]
      exact hparts
    · rw [Node.span_of_control? hn, hspan]
      rfl
  | @unbranched s t u d n hn hreported =>
    have hle := hs.le (Passage.unbranched hn hreported).reaches
    rw [List.flatMap_singleton]
    refine Ascending.node ?_ (Node.command?_of_control? hn) ?_
    · rw [Node.children_of_control? hn]
      show Ascending _ _ ([Node.expr (.error (.point t.token.span.start))].flatMap Node.spans)
      rw [List.flatMap_singleton]
      exact (Ascending.leaf (Nat.le_refl _) rfl rfl).widen hle (Nat.le_refl _)
    · rw [Node.span_of_control? hn]
      rfl
  | expression _ ih =>
    have hinside := ih hs
    rw [List.flatMap_singleton] at hinside ⊢
    exact hinside.first rfl rfl rfl
  | @assignment s t _ _ value _ ih =>
    have hname := reaches_advance s
    have hvalue := (ih (hs.mono hname)).widen (hs.le hname) (Nat.le_refl _)
    rw [List.flatMap_singleton] at hvalue ⊢
    refine Ascending.node ?_ rfl hvalue.start_join
    show Ascending _ _ ([Node.expr value].flatMap Node.spans)
    rwa [List.flatMap_singleton]
  | @block s t u v id ss hopened _ _ h hclosed _ ih =>
    have hu := hopened.trans h.reaches
    have hinside := (ih (hs.mono hopened)).widen (hs.le hopened) ((hs.mono hu).le hclosed)
    rw [List.flatMap_singleton]
    exact hinside.node rfl rfl
  | blockExpr _ ih =>
    have hblock := ih hs
    rw [List.flatMap_singleton, Node.spans_eq rfl] at hblock ⊢
    exact hblock

/-- The tokens of a source text stand one behind the other. -/
theorem spaced_initial (source : String) : (State.initial (scan source).tokens).Spaced := by
  have hlaid := laid_scan source
  rw [initial_scan]
  constructor
  · rw [State.spans, List.pairwise_append, List.pairwise_map]
    refine ⟨hlaid.ordered, List.pairwise_singleton _ _, ?_⟩
    intro x hx y hy
    obtain ⟨t, ht, rfl⟩ := List.mem_map.1 hx
    obtain rfl := List.mem_singleton.1 hy
    exact hlaid.ended t ht
  · intro x hx
    rcases List.mem_append.1 hx with hx | hx
    · obtain ⟨t, ht, rfl⟩ := List.mem_map.1 hx
      exact (hlaid.valid t ht).le
    · obtain rfl := List.mem_singleton.1 hx
      exact Nat.le_refl _
  · exact Nat.le_refl _
  · exact Nat.zero_le _

/-- The spans of a script that has been read come in the order of the source. -/
theorem spans_parse (table : Table) (source : String) :
    (Node.program (parse table (scan source).tokens).program).spans.Pairwise
      fun x y => x.start ≤ y.start := by
  obtain ⟨t, hread, -, -⟩ := statements_read table (scan source).tokens
  rw [Node.spans_eq rfl, List.pairwise_cons]
  exact ⟨fun x _ => Nat.zero_le _, (hread.sourceOrder (spaced_initial source)).sorted⟩

end Parse

end Sqf
