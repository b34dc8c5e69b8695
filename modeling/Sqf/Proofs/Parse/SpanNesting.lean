import Sqf.Proofs.Parse.SourceOrder

/-!
# Spans of nodes and of their parts

A node ends with the last token that was read for it, and what is below it ends no later, up to
placeholders that stand at tokens which were not read (`part_in_span`). The walk goes through the
source from front to back, and statements stand one behind the other (`walk_in_order`).
-/

namespace Sqf

namespace Node

/-- The statements of a script or of a block. -/
def statements : Node → List Stmt
  | program p => p.statements
  | block b => b.statements
  | expr (.block b) => b.statements
  | _ => []

/-- A node ends as a placeholder in it does, which stands behind an offset. -/
def Overhangs (n : Node) (offset : Nat) : Prop :=
  ∃ e ∈ n.walk, e.isError = true ∧ offset ≤ e.span.start ∧ e.span.stop = n.span.stop

/-- The parts of a node end with it, or with placeholders behind it, and its statements stand one
behind the other. -/
structure Frames (n : Node) : Prop where
  parts : ∀ m ∈ n.children, m.span.stop ≤ n.span.stop ∨ m.Overhangs n.span.stop
  statements : n.statements.Pairwise fun a b => a.span.stop ≤ b.span.start

/-- All nodes of a tree frame their parts. -/
def Framed (n : Node) : Prop := ∀ k ∈ n.walk, k.Frames

/-- A placeholder that starts at the end of a node or behind it hangs over. -/
theorem Overhangs.of_isError {n : Node} {offset : Nat} (hn : n.isError = true)
    (hle : offset ≤ n.span.start) : n.Overhangs offset :=
  ⟨n, n.mem_walk_self, hn, hle, rfl⟩

/-- A tree is framed if its root is and the trees below it are. -/
theorem Framed.of_children {n : Node} (h : n.Frames) (hchildren : ∀ m ∈ n.children, m.Framed) :
    n.Framed := by
  intro k hk
  rw [walk_eq] at hk
  rcases List.mem_cons.1 hk with rfl | hk
  · exact h
  · obtain ⟨m, hm, hk⟩ := List.mem_flatMap.1 hk
    exact hchildren m hm k hk

/-- A construct has no statements of its own, only its blocks do. -/
theorem statements_of_control? {n : Node} {c : Control} (h : n.control? = some c) :
    n.statements = [] := by
  rcases eq_of_control? h with rfl | rfl <;> rfl

/-- Statements are children. -/
theorem statements_eq_nil {n : Node} (h : n.children = []) : n.statements = [] := by
  unfold statements
  split
  · exact List.map_eq_nil_iff.1 h
  · exact List.map_eq_nil_iff.1 h
  · exact List.map_eq_nil_iff.1 h
  · rfl

/-- A node without children is framed. -/
theorem Framed.of_leaf {n : Node} (h : n.children = []) : n.Framed := by
  refine .of_children ⟨?_, ?_⟩ ?_
  · rw [h]
    nofun
  · rw [statements_eq_nil h]
    exact .nil
  · rw [h]
    nofun

end Node

namespace Parse

/-- How far nodes reach at most that are read before a token. -/
def Manner.limit : Manner → Token → Nat
  | .whole, t => t.span.start
  | .parts, t => t.span.stop

/-- A node that is read before the state `t` ends with what has been read, or with a placeholder
that stands at the next token. -/
structure EndsBy (m : Manner) (t : State) (n : Node) : Prop where
  stop_le : n.span.stop ≤ m.limit t.token
  read : n.span.stop ≤ t.lastEnd ∨ n.Overhangs t.lastEnd

namespace EndsBy

variable {m : Manner} {t u : State} {n : Node}

/-- A node that ends with a token that was read. -/
theorem of_read (ht : t.Spaced) (h : n.span.stop ≤ t.lastEnd) : EndsBy .whole t n :=
  ⟨Nat.le_trans h ht.read, .inl h⟩

/-- Among the parts of a node less is asked. -/
theorem parts (ht : t.Spaced) (h : EndsBy .whole t n) : EndsBy .parts t n :=
  ⟨Nat.le_trans h.stop_le ht.token_le, h.read⟩

/-- Nothing that was read ends behind the next token. -/
theorem stop_le_token (ht : t.Spaced) (h : EndsBy m t n) : n.span.stop ≤ t.token.span.stop := by
  cases m with
  | whole => exact (h.parts ht).stop_le
  | parts => exact h.stop_le

/-- A node ends in the same way before a later state, as the token that it may reach to has been
read there or is still the next one. -/
theorem mono (ht : t.Spaced) (hu : t.Reaches u) (h : EndsBy m t n) : EndsBy m u n := by
  rcases ht.read_or_same hu with ⟨hrest, hlast⟩ | hread
  · refine ⟨?_, ?_⟩
    · rw [hu.token_eq hrest]
      exact h.stop_le
    · rw [hlast]
      exact h.read
  · have hends := of_read (ht.mono hu) (Nat.le_trans (h.stop_le_token ht) hread)
    cases m with
    | whole => exact hends
    | parts => exact hends.parts (ht.mono hu)

/-- A node that ends with its last part, or before. -/
theorem of_child {child : Node} {offset : Nat} (ht : t.Spaced) (h : EndsBy .whole t child)
    (hchild : child ∈ n.children) (hoffset : offset ≤ t.lastEnd)
    (hstop : n.span.stop = max offset child.span.stop) : EndsBy .whole t n := by
  by_cases hle : child.span.stop ≤ t.lastEnd
  · refine of_read ht ?_
    rw [hstop]
    exact Nat.max_le.2 ⟨hoffset, hle⟩
  · have hsame : n.span.stop = child.span.stop := by omega
    obtain ⟨e, he, herror, hbehind, hend⟩ := h.read.resolve_left hle
    refine ⟨?_, .inr ⟨e, Node.walk_subset_of_mem_children hchild he, herror, hbehind, ?_⟩⟩
    · rw [hsame]
      exact h.stop_le
    · rw [hsame]
      exact hend

end EndsBy

/-- Nodes are framed and end before the state `t`. If each is read for itself, they stand one
behind the other. -/
structure ReadFramed (m : Manner) (ns : List Node) (t : State) : Prop where
  ends : ∀ n ∈ ns, EndsBy m t n
  framed : ∀ n ∈ ns, n.Framed
  apart : m = .whole → ns.Pairwise fun a b => a.span.stop ≤ b.span.start

namespace ReadFramed

variable {m : Manner} {ns ms : List Node} {n : Node} {s t u : State}

/-- One node that is framed and ends in time. -/
theorem singleton (hends : EndsBy m t n) (hframed : n.Framed) : ReadFramed m [n] t := by
  refine ⟨?_, ?_, fun _ => List.pairwise_singleton _ _⟩
  · intro k hk
    obtain rfl := List.mem_singleton.1 hk
    exact hends
  · intro k hk
    obtain rfl := List.mem_singleton.1 hk
    exact hframed

/-- Reading on changes nothing of what was read. -/
theorem mono (ht : t.Spaced) (hu : t.Reaches u) (h : ReadFramed m ns t) : ReadFramed m ns u :=
  ⟨fun n hn => (h.ends n hn).mono ht hu, h.framed, h.apart⟩

/-- What is read first ends before what is read next starts, if both are whole nodes. -/
theorem append (h : ReadFramed m ns t) (h' : ReadFramed m ms t)
    (hapart : m = .whole → ∀ n ∈ ns, ∀ k ∈ ms, n.span.stop ≤ k.span.start) :
    ReadFramed m (ns ++ ms) t := by
  refine ⟨fun n hn => ?_, fun n hn => ?_, fun hm => ?_⟩
  · exact (List.mem_append.1 hn).elim (h.ends n) (h'.ends n)
  · exact (List.mem_append.1 hn).elim (h.framed n) (h'.framed n)
  · exact List.pairwise_append.2 ⟨h.apart hm, h'.apart hm, hapart hm⟩

/-- A node that ends with what has been read frames parts that have been read. -/
theorem closed (ht : t.Spaced) (hstop : n.span.stop = t.lastEnd) (h : ReadFramed m n.children t)
    (hstatements : n.statements.Pairwise fun a b => a.span.stop ≤ b.span.start) :
    ReadFramed .whole [n] t := by
  refine .singleton (.of_read ht (Nat.le_of_eq hstop)) (.of_children ⟨?_, hstatements⟩ h.framed)
  rw [hstop]
  exact fun child hchild => (h.ends child hchild).read

/-- So does a node that ends with its only part. -/
theorem of_child {child : Node} {offset : Nat} (ht : t.Spaced) (h : ReadFramed .whole [child] t)
    (hchildren : n.children = [child]) (hstatements : n.statements = [])
    (hoffset : offset ≤ t.lastEnd) (hstop : n.span.stop = max offset child.span.stop) :
    ReadFramed .whole [n] t := by
  have hmem : child ∈ n.children := hchildren ▸ List.mem_cons_self
  refine .singleton ((h.ends child List.mem_cons_self).of_child ht hmem hoffset hstop)
    (.of_children ⟨fun m hm => ?_, ?_⟩ ?_)
  · rw [hchildren] at hm
    obtain rfl := List.mem_singleton.1 hm
    rw [hstop]
    exact .inl (Nat.le_max_right _ _)
  · rw [hstatements]
    exact .nil
  · rw [hchildren]
    exact h.framed

/-- A placeholder that is read, or that stands at the next token. -/
theorem placeholder (hn : n.isError = true) (hstop : n.span.stop ≤ m.limit t.token)
    (hread : n.span.stop ≤ t.lastEnd ∨ t.lastEnd ≤ n.span.start) : ReadFramed m [n] t :=
  .singleton ⟨hstop, hread.imp_right (.of_isError hn)⟩ (.of_leaf (Node.children_of_isError hn))

/-- A placeholder for what is passed over between two states. -/
theorem region (hs : s.Spaced) (h : s.Reaches t) (hn : n.isError = true)
    (hspan : n.span = s.region t) : ReadFramed .whole [n] t := by
  by_cases hlt : t.rest.length < s.rest.length
  · rw [State.region_of_lt hlt] at hspan
    refine .placeholder hn ?_ (.inl ?_)
    · rw [hspan]
      exact (hs.mono h).read
    · rw [hspan]
  · rw [State.region_of_le (Nat.le_of_not_lt hlt)] at hspan
    refine .placeholder hn ?_ ?_
    · rw [hspan]
      exact hs.le h
    · rw [hspan]
      rcases hs.read_or_same h with ⟨-, hlast⟩ | hread
      · exact .inr (Nat.le_trans (Nat.le_of_eq hlast) hs.read)
      · exact .inl (Nat.le_trans hs.token_le hread)

/-- An operator ends with its right operand, as the left one has been read before. -/
theorem binary {command : Token} {left right : Expr} (ht : t.Spaced)
    (hread : left.span.stop ≤ t.lastEnd) (hleft : (Node.expr left).Framed)
    (hright : ReadFramed .whole [.expr right] t) :
    ReadFramed .whole [.expr (joined command left right)] t := by
  refine .singleton ((hright.ends _ List.mem_cons_self).of_child ht
    (List.mem_cons_of_mem _ List.mem_cons_self) hread rfl) (.of_children ⟨?_, .nil⟩ ?_)
  · intro operand hoperand
    rcases List.mem_cons.1 hoperand with rfl | hoperand
    · exact .inl (Nat.le_max_left _ _)
    · obtain rfl := List.mem_singleton.1 hoperand
      exact .inl (Nat.le_max_right _ _)
  · intro operand hoperand
    rcases List.mem_cons.1 hoperand with rfl | hoperand
    · exact hleft
    · exact hright.framed _ hoperand

/-- A block that stands as an expression has the span and the statements of the block. -/
theorem blockExpr {b : Block} (h : ReadFramed .whole [.block b] t) :
    ReadFramed .whole [.expr (.block b)] t := by
  have hends := h.ends _ List.mem_cons_self
  have hframed := h.framed _ List.mem_cons_self
  have hframes := hframed _ (Node.mem_walk_self _)
  refine .singleton ⟨hends.stop_le, hends.read.imp_right ?_⟩
    (.of_children ⟨hframes.parts, hframes.statements⟩ fun m hm k hk => ?_)
  · rintro ⟨e, he, herror, hbehind, hstop⟩
    refine ⟨e, Node.mem_walk_blockExpr he ?_, herror, hbehind, hstop⟩
    rintro rfl
    cases herror
  · exact hframed k (Node.walk_subset_of_mem_children (m := .block b) hm hk)

end ReadFramed

/-- From the token before the state `s` to the end of what is read. -/
theorem stop_spanFrom {s t : State} (h : s.token.span.stop ≤ t.lastEnd) :
    (t.spanFrom s.token.span).stop = t.lastEnd :=
  Nat.max_eq_left h

/-- What is read between two states is framed. -/
theorem Passage.framed {m : Manner} {s t : State} {ns : List Node} (h : Passage m s ns t)
    (hs : s.Spaced) : ReadFramed m ns t := by
  -- One case for each way in which nodes are made. A node gets its frame from the states before and
  -- behind its parts.
  induction h with
  | pass _ => exact ⟨nofun, nofun, fun _ => .nil⟩
  | @append m s t u ns ms h h' ih ih' =>
    have ht := hs.mono h.reaches
    refine ((ih hs).mono ht h'.reaches).append (ih' ht) ?_
    rintro rfl n hn k hk
    have hspan : k.span ∈ ms.flatMap Node.spans := List.mem_flatMap.2 ⟨k, hk, k.span_mem_spans⟩
    exact Nat.le_trans ((ih hs).ends n hn).stop_le ((h'.sourceOrder ht).bounds _ hspan).1
  | sublist _ hsub ih =>
    have hread := ih hs
    exact ⟨fun n hn => hread.ends n (hsub.subset hn), fun n hn => hread.framed n (hsub.subset hn),
      fun hm => (hread.apart hm).sublist hsub⟩
  | part h ih =>
    have hread := ih hs
    exact ⟨fun n hn => (hread.ends n hn).parts (hs.mono h.reaches), hread.framed, nofun⟩
  | skipped hn hspan hreported _ => exact .region hs hreported.reaches_end hn hspan
  | @failed s d hspan =>
    refine .placeholder rfl (Nat.le_of_eq (congrArg Span.stop hspan)) (.inr ?_)
    show s.lastEnd ≤ d.span.start
    rw [hspan]
    exact hs.read
  | @atom s n hn hspan =>
    refine .singleton (.of_read hs.advance ?_) (.of_leaf (Node.leaf_of_isAtom hn).1)
    rw [hspan, next_advance_eq]
  | @array s t es h ih =>
    have hopened := reaches_advance s
    have ht := hs.mono (hopened.trans h.reaches)
    have hstop := hs.stop_le_of_advance (h.reaches.trans (reaches_advance t))
    exact .closed ht.advance (stop_spanFrom hstop)
      ((ih (hs.mono hopened)).mono ht (reaches_advance t)) .nil
  | @unary s t operand h ih =>
    have hcommand := reaches_advance s
    exact (ih (hs.mono hcommand)).of_child (hs.mono (hcommand.trans h.reaches)) rfl rfl
      (hs.stop_le_of_advance h.reaches) rfl
  | @binary s t u left right h h' ih ih' =>
    have ht := hs.mono h.reaches
    have hread := Nat.le_trans (((ih hs).ends _ List.mem_cons_self).stop_le_token ht)
      (ht.stop_le_of_advance h'.reaches)
    exact .binary (ht.advance.mono h'.reaches) hread ((ih hs).framed _ List.mem_cons_self)
      (ih' ht.advance)
  | @control s t c n hn hspan h ih =>
    have hkeyword := reaches_advance s
    have hparts := ih (hs.mono hkeyword)
    rw [← Node.children_of_control? hn] at hparts
    refine hparts.closed (hs.mono (hkeyword.trans h.reaches)) ?_ ?_
    · rw [Node.span_of_control? hn, hspan]
      exact stop_spanFrom (hs.stop_le_of_advance h.reaches)
    · rw [Node.statements_of_control? hn]
      exact .nil
  | @unbranched s t u d n hn hreported =>
    have hbehind := hreported.reaches_end
    have ht := hs.mono ((reaches_advance s).trans hbehind)
    have hbranch : ReadFramed .whole [.expr (.error (.point t.token.span.start))] t :=
      .placeholder rfl (Nat.le_refl _) (.inr ht.read)
    have hchildren : n.children = [.expr (.error (.point t.token.span.start))] :=
      Node.children_of_control? hn
    rw [← hchildren] at hbranch
    refine hbranch.closed ht ?_ ?_
    · rw [Node.span_of_control? hn]
      exact stop_spanFrom (hs.stop_le_of_advance hbehind)
    · rw [Node.statements_of_control? hn]
      exact .nil
  | @expression s t e h ih =>
    exact (ih hs).of_child (hs.mono h.reaches) rfl rfl (Nat.zero_le _) (Nat.zero_max _).symm
  | @assignment s t _ _ value h ih =>
    have hname := reaches_advance s
    exact (ih (hs.mono hname)).of_child (hs.mono (hname.trans h.reaches)) rfl rfl
      (hs.stop_le_of_advance h.reaches) rfl
  | @block s t u v id ss hopened _ _ h hclosed hread ih =>
    have hu := hopened.trans h.reaches
    have hv := hu.trans hclosed
    have hinside := (ih (hs.mono hopened)).mono (hs.mono hu) hclosed
    exact hinside.closed (n := .block ⟨id, ss, v.spanFrom s.token.span⟩) (hs.mono hv)
      (stop_spanFrom (hs.stop_le_of_lt hv hread)) (List.pairwise_map.1 (hinside.apart rfl))
  | blockExpr _ ih => exact (ih hs).blockExpr

end Parse

/-- A script that was read frames its parts. -/
theorem framed_parse (table : Table) (source : String) :
    (Node.program (parse table (scan source).tokens).program).Framed := by
  obtain ⟨t, hread, hspan, -⟩ := Parse.statements_read table (scan source).tokens
  have hs := Parse.spaced_initial source
  have ht := hs.mono hread.reaches
  have hstatements := hread.framed hs
  refine .of_children ⟨fun m hm => .inl ?_, ?_⟩ hstatements.framed
  · show m.span.stop ≤ (parse table (scan source).tokens).program.span.stop
    rw [hspan]
    exact (hstatements.ends m hm).stop_le_token ht
  · exact List.pairwise_map.1 (hstatements.apart rfl)

/-- A part of a node starts and ends in the span of the node. It reaches further only if it ends
with a placeholder that stands behind the node. -/
theorem part_in_span (table : Table) (source : String) :
    ∀ n ∈ (Node.program (parseSource table source).program).walk, ∀ m ∈ n.children,
      n.span.start ≤ m.span.start ∧ (m.span.stop ≤ n.span.stop ∨ m.Overhangs n.span.stop) := by
  intro n hn m hm
  refine ⟨?_, (framed_parse table source n hn).parts m hm⟩
  have hspans := (Parse.spans_parse table source).sublist (Node.spans_sublist_of_mem_walk hn)
  have hmem := (Node.spans_sublist_of_mem_children hm).subset m.span_mem_spans
  obtain ⟨inside, hinside⟩ := n.exists_spans
  rw [hinside, List.pairwise_cons] at hspans
  rw [hinside] at hmem
  rcases List.mem_cons.1 hmem with heq | hmem
  · exact Nat.le_of_eq (congrArg Span.start heq.symm)
  · exact hspans.1 _ hmem

/-- An `if` whose branch cannot be read. -/
def branchUnread : String := "if (a) then ;"

theorem part_in_span_branchUnread :
    let tree := Node.program (parseSource .empty branchUnread).program
    ∃ n ∈ tree.walk, ∃ m ∈ n.children, n.span = ⟨0, 11⟩ ∧ m.span = ⟨12, 13⟩ ∧
      n.span.start ≤ m.span.start ∧ (m.span.stop ≤ n.span.stop ∨ m.Overhangs n.span.stop) := by
  intro tree
  have hfound : ∃ n ∈ tree.walk, ∃ m ∈ n.children, n.span = ⟨0, 11⟩ ∧ m.span = ⟨12, 13⟩ := by
    decide +kernel
  obtain ⟨n, hn, m, hm, hspan, hspan'⟩ := hfound
  exact ⟨n, hn, m, hm, hspan, hspan', part_in_span .empty branchUnread n hn m hm⟩

/-- The branch has the span of the semicolon behind the `if`. -/
theorem part_behind_branchUnread :
    ∃ n ∈ (Node.program (parseSource .empty branchUnread).program).walk, ∃ m ∈ n.children,
      m.isError = true ∧ ¬ n.span.Contains m.span := by
  decide +kernel

/-- The walk visits nodes in the order of where they start, and statements stand one behind the
other. -/
theorem walk_in_order (table : Table) (source : String) :
    let tree := Node.program (parseSource table source).program
    (tree.walk.Pairwise fun n m => n.span.start ≤ m.span.start) ∧
      ∀ n ∈ tree.walk, n.statements.Pairwise fun a b => a.span.stop ≤ b.span.start := by
  intro tree
  refine ⟨?_, fun n hn => (framed_parse table source n hn).statements⟩
  have hspans := (Parse.spans_parse table source).sublist tree.map_walk_sublist_spans
  rwa [List.pairwise_map] at hspans

end Sqf
