import Sqf.Proofs.Parse.SourceOrder

/-!
# Placeholders and what is reported for them

A placeholder stands for what could not be read, and each has a diagnostic of its own
(`errorSpans_length_le`). The diagnostic is mostly in the span of the placeholder, and
`placeholder_located` says where else it may be.
-/

namespace Sqf

namespace Node

/-- The placeholders among a node and all below it. -/
def errors (n : Node) : List Node := n.walk.filter isError

theorem errors_eq {n : Node} (h : n.isError = false) : n.errors = n.children.flatMap errors := by
  rw [errors, walk_eq, List.filter_cons_of_neg (by simp [h]), List.filter_flatMap]
  rfl

theorem errors_of_isError {n : Node} (h : n.isError = true) : n.errors = [n] := by
  rw [errors, walk_eq, children_of_isError h, List.flatMap_nil, List.filter_cons_of_pos h]
  rfl

/-- An `if` that has a placeholder as its only part. -/
theorem errors_of_unbranched {n : Node} {form : IfForm} {span whole : Span}
    (h : n.control? = some (.ifThen none form (.error span) none whole)) :
    n.errors = [expr (.error span)] := by
  rw [errors_eq (isError_of_control? h), children_of_control? h]
  exact (List.flatMap_singleton ..).trans (errors_of_isError rfl)

/-- A block has the same placeholders where it stands as an expression. -/
theorem errors_blockExpr (b : Block) : (expr (.block b)).errors = (block b).errors := by
  rw [errors_eq rfl, errors_eq rfl]
  rfl

end Node

namespace Parse

/-! ## The number of placeholders -/

/-- On the way between two states at least as much is reported as there are placeholders. -/
theorem Passage.errors_le {m : Manner} {s t : State} {ns : List Node} (h : Passage m s ns t) :
    s.diagnostics.size + (ns.flatMap Node.errors).length ≤ t.diagnostics.size := by
  induction h using Passage.children_induction with
  | pass h => exact h.size_le
  | append _ _ ih ih' =>
    rw [List.flatMap_append, List.length_append]
    omega
  | sublist _ hsub ih =>
    have hle := (hsub.flatMap Node.errors).length_le
    omega
  | part _ ih => exact ih
  | skipped hn _ hreported _ =>
    rw [List.flatMap_singleton, Node.errors_of_isError hn]
    exact hreported.size_lt
  | @failed s d _ =>
    rw [List.flatMap_singleton, Node.errors_of_isError rfl, next_report, Array.size_push]
    exact Nat.le_refl _
  | @unbranched s t u d n hn hreported =>
    rw [List.flatMap_singleton, Node.errors_of_unbranched hn]
    exact Nat.lt_of_le_of_lt (reaches_advance s).size_le hreported.size_lt
  | node _ _ hn hs ht ih =>
    rw [List.flatMap_singleton, Node.errors_eq hn]
    exact Nat.le_trans (Nat.add_le_add_right hs.size_le _) (Nat.le_trans ih ht.size_le)
  | blockExpr _ ih =>
    rw [List.flatMap_singleton] at ih ⊢
    rwa [Node.errors_blockExpr]

end Parse

/-- A script that has been read has at most as many placeholders as the parser has reported
diagnostics, and none if nothing was reported. -/
theorem errorSpans_length_le (table : Table) (tokens : List Token) :
    let parsed := parse table tokens
    (Node.program parsed.program).errorSpans.length ≤ parsed.diagnostics.length ∧
      (parsed.diagnostics = [] → parsed.program.hasErrors = false) := by
  intro parsed
  obtain ⟨t, hread, -, hreports⟩ := Parse.statements_read table tokens
  have hle : (Node.program parsed.program).errorSpans.length ≤ parsed.diagnostics.length := by
    have hcount : parsed.diagnostics.length = t.diagnostics.size := by simp [parsed, hreports]
    rw [hcount, Node.errorSpans, List.length_map, ← Node.errors, Node.errors_eq rfl]
    exact Nat.le_trans (Nat.le_add_left _ _) hread.errors_le
  refine ⟨hle, fun hnone => ?_⟩
  rw [hnone] at hle
  rw [Program.hasErrors, List.eq_nil_of_length_eq_zero (Nat.eq_zero_of_le_zero hle)]
  rfl

namespace Parse

/-! ## The places of diagnostics -/

/-- A token is the first one behind an offset. -/
structure NextBehind (tokens : List Token) (offset : Nat) (token : Token) : Prop where
  mem : token ∈ tokens
  behind : offset ≤ token.span.start
  first : ∀ other ∈ tokens, other.span.stop ≤ offset ∨ token.span.start ≤ other.span.start

/-- Where the diagnostic for a placeholder `e` of a tree is. -/
inductive Locates (tokens : List Token) (tree e : Node) (d : Diagnostic) : Prop where
  /-- In the span of the placeholder. -/
  | inside (hle : e.span.start ≤ d.span.start) (hle' : d.span.start ≤ e.span.stop)
  /-- At the token behind the placeholder, with which the block or the script ends. -/
  | cutOff (token : Token) (hnext : NextBehind tokens e.span.stop token)
      (hkind : token.kind = .closeCurly ∨ token.kind = .endOfInput) (hspan : d.span = token.span)
  /-- In an `if` without a branch, of which it is the condition that cannot be read. -/
  | condition (n : Node) (hmem : n ∈ tree.walk)
      (hif : n.control? = some (.ifThen none .thenBranch (.error e.span) none n.span))
      (hle : n.span.start ≤ d.span.start) (hle' : d.span.start ≤ e.span.start)

/-- What locates a placeholder in a part of a tree locates it in the tree. -/
theorem Locates.of_child {tokens : List Token} {tree child e : Node} {d : Diagnostic}
    (h : Locates tokens child e d) (hchild : child ∈ tree.children) : Locates tokens tree e d := by
  cases h with
  | inside hle hle' => exact .inside hle hle'
  | cutOff token hnext hkind hspan => exact .cutOff token hnext hkind hspan
  | condition n hmem hif hle hle' =>
    exact .condition n (Node.walk_subset_of_mem_children hchild hmem) hif hle hle'

theorem Locates.of_block {tokens : List Token} {b : Block} {e : Node} {d : Diagnostic}
    (h : Locates tokens (.block b) e d) : Locates tokens (.expr (.block b)) e d := by
  cases h with
  | inside hle hle' => exact .inside hle hle'
  | cutOff token hnext hkind hspan => exact .cutOff token hnext hkind hspan
  | condition n hmem hif hle hle' =>
    refine .condition n (Node.mem_walk_blockExpr hmem ?_) hif hle hle'
    rintro rfl
    cases hif

/-- The tokens that are left, with the end of input. -/
def State.tokens (s : State) : List Token := s.rest ++ [⟨.endOfInput, Token.endValue, s.finish⟩]

theorem State.tokens_initial (source : String) :
    (State.initial (scan source).tokens).tokens = (scan source).tokens := by
  rw [initial_scan, tokens_scan]
  rfl

/-- A parser that started in the state `first` stands before the first token that is behind what
it has read. -/
theorem State.Spaced.nextBehind {first s : State} (hfirst : first.Spaced) (h : first.Reaches s) :
    NextBehind first.tokens s.lastEnd s.token := by
  have hs := hfirst.mono h
  refine ⟨?_, hs.read, fun other hother => ?_⟩
  · cases hrest : s.rest with
    | nil =>
      have htoken : s.token = ⟨.endOfInput, Token.endValue, s.finish⟩ := by
        simp [State.token, hrest]
      rw [htoken, h.finish]
      exact List.mem_append_right _ List.mem_cons_self
    | cons t ts =>
      rw [State.token_cons hrest]
      exact List.mem_append_left _ (h.rest.mem (hrest ▸ List.mem_cons_self))
  · rcases List.mem_append.1 hother with hother | hother
    · rcases hfirst.mem_or_read h hother with hleft | hread
      · exact .inr (hs.start_le_of_mem (List.mem_append_left _ (List.mem_map_of_mem hleft)))
      · exact .inl hread
    · obtain rfl := List.mem_singleton.1 hother
      rw [← h.finish]
      exact .inr (hs.start_le_of_mem (List.mem_append_right _ List.mem_cons_self))

/-- A placeholder for tokens that are passed over is located. -/
theorem Reported.locates {first s u t : State} {d : Diagnostic} {n : Node} (hfirst : first.Spaced)
    (hs : first.Reaches s) (h : Reported s d u t) (hspan : n.span = s.region t)
    (hends : t.rest = u.rest → t.rest = s.rest ∨ t.kind = .endOfInput ∨ t.kind = .closeCurly) :
    Locates first.tokens n n d := by
  have hspaced := hfirst.mono hs
  have htail := ((reaches_report d u).trans h.behind : u.Reaches t)
  have hle := hspaced.le h.reaches
  rw [← h.span] at hle
  by_cases hlt : t.rest.length < s.rest.length
  · rw [State.region_of_lt hlt] at hspan
    rcases (hspaced.mono h.reaches).read_or_same htail with ⟨hrest, hlast⟩ | hread
    · -- Nothing was passed over behind the report, so what is read ends there.
      refine .cutOff t.token ?_ ?_ ?_
      · rw [hspan]
        exact hfirst.nextBehind (hs.trans h.reaches_end)
      · refine ((hends hrest).resolve_left fun heq => ?_).symm
        rw [heq] at hlt
        exact Nat.lt_irrefl _ hlt
      · rw [h.span, htail.token_eq hrest]
    · refine .inside ?_ ?_
      · rw [hspan]
        exact hle
      · rw [hspan, h.span]
        exact Nat.le_trans (hspaced.mono h.reaches).token_le hread
  · have hsame : u.token = s.token := by
      refine h.reaches.token_eq (h.reaches.rest.eq_of_length_le ?_)
      exact Nat.le_trans (Nat.le_of_not_lt hlt) htail.rest.length_le
    rw [State.region_of_le (Nat.le_of_not_lt hlt)] at hspan
    refine .inside ?_ ?_
    · rw [hspan]
      exact hle
    · rw [hspan, h.span, hsame]
      exact Nat.le_refl _

/-- What is read on the way of a parser that started in the state `first` has located
placeholders only. -/
theorem Passage.located {first : State} (hfirst : first.Spaced) {m : Manner} {s t : State}
    {ns : List Node} (h : Passage m s ns t) (hs : first.Reaches s) :
    ∀ k ∈ ns, ∀ e ∈ k.errors, ∃ d ∈ t.diagnostics.toList, Locates first.tokens k e d := by
  induction h using Passage.children_induction with
  | pass _ => nofun
  | append h h' ih ih' =>
    intro k hk e he
    rcases List.mem_append.1 hk with hk | hk
    · obtain ⟨d, hd, hlocates⟩ := ih hs k hk e he
      exact ⟨d, h'.reaches.diagnostics.mem hd, hlocates⟩
    · exact ih' (hs.trans h.reaches) k hk e he
  | sublist _ hsub ih => exact fun k hk => ih hs k (hsub.subset hk)
  | part _ ih => exact ih hs
  | @skipped s t u d n hn hspan hreported hends =>
    intro k hk e he
    obtain rfl := List.mem_singleton.1 hk
    rw [Node.errors_of_isError hn] at he
    obtain rfl := List.mem_singleton.1 he
    exact ⟨d, hreported.mem, hreported.locates hfirst hs hspan hends⟩
  | @failed s d hspan =>
    intro k hk e he
    obtain rfl := List.mem_singleton.1 hk
    rw [Node.errors_of_isError rfl] at he
    obtain rfl := List.mem_singleton.1 he
    refine ⟨d, ?_, .inside (Nat.le_refl _) ?_⟩
    · rw [next_report, Array.toList_push]
      exact List.mem_append_right _ List.mem_cons_self
    · have hle := (hfirst.mono hs).token_le
      rw [← hspan] at hle
      exact hle
  | @unbranched s t u d n hn hreported =>
    intro k hk e he
    obtain rfl := List.mem_singleton.1 hk
    rw [Node.errors_of_unbranched hn] at he
    obtain rfl := List.mem_singleton.1 he
    have hspaced := hfirst.mono hs
    have hkeyword := (reaches_advance s).trans hreported.reaches
    have hspan := Node.span_of_control? hn
    refine ⟨d, hreported.mem, .condition k k.mem_walk_self ?_ ?_ ?_⟩
    · rw [hspan]
      exact hn
    · rw [hspan, hreported.span]
      exact hspaced.le hkeyword
    · rw [hreported.span]
      exact (hspaced.mono hkeyword).le ((reaches_report d u).trans hreported.behind)
  | node h _ hn hreaches hreaches' ih =>
    intro k hk e he
    obtain rfl := List.mem_singleton.1 hk
    rw [Node.errors_eq hn] at he
    obtain ⟨child, hchild, he⟩ := List.mem_flatMap.1 he
    obtain ⟨d, hd, hlocates⟩ := ih (hs.trans hreaches) child hchild e he
    exact ⟨d, hreaches'.diagnostics.mem hd, hlocates.of_child hchild⟩
  | blockExpr _ ih =>
    intro k hk e he
    obtain rfl := List.mem_singleton.1 hk
    rw [Node.errors_blockExpr] at he
    obtain ⟨d, hd, hlocates⟩ := ih hs _ List.mem_cons_self e he
    exact ⟨d, hd, hlocates.of_block⟩

end Parse

/-- Each placeholder of a script has a diagnostic in its span, or where the statement that it
stands for is cut off, or in the `if` that it is the missing branch of. -/
theorem placeholder_located (table : Table) (source : String) :
    let parsed := parseSource table source
    ∀ e ∈ (Node.program parsed.program).errors, ∃ d ∈ parsed.diagnostics,
      Parse.Locates (scan source).tokens (.program parsed.program) e d := by
  intro parsed e he
  obtain ⟨t, hread, -, hreports⟩ := Parse.statements_read table (scan source).tokens
  have hlocated := hread.located (Parse.spaced_initial source) .refl
  rw [Parse.State.tokens_initial] at hlocated
  rw [Node.errors_eq rfl] at he
  obtain ⟨child, hchild, he⟩ := List.mem_flatMap.1 he
  obtain ⟨d, hd, hlocates⟩ := hlocated child hchild e he
  refine ⟨d, (Diagnostic.sortByStart_perm _).mem_iff.2 (List.mem_append_right _ ?_),
    hlocates.of_child hchild⟩
  rw [hreports]
  exact hd

/-- An `if` with a malformed condition, and no branch behind what is passed over. -/
def branchless : String := "if (1 +) foo bar baz ;"

theorem placeholder_located_branchless :
    ∃ e ∈ (Node.program (parseSource .empty branchless).program).errors, e.span = ⟨21, 21⟩ ∧
      ∃ d ∈ (parseSource .empty branchless).diagnostics, Parse.Locates (scan branchless).tokens
        (.program (parseSource .empty branchless).program) e d := by
  have hspans : (Node.program (parseSource .empty branchless).program).errorSpans = [⟨21, 21⟩] := by
    decide +kernel
  obtain ⟨e, he, hspan⟩ := List.mem_map.1 (hspans ▸ List.mem_cons_self)
  exact ⟨e, he, hspan, placeholder_located .empty branchless e he⟩

/-- Its placeholder is not at the tokens that are passed over but behind them, and nothing is
reported within a byte of it. -/
theorem placeholder_apart_branchless :
    ∃ span ∈ (Node.program (parseSource .empty branchless).program).errorSpans,
      ∀ d ∈ (parseSource .empty branchless).diagnostics,
        ¬ (span.start ≤ d.span.start + 1 ∧ d.span.start ≤ span.stop + 1) := by
  decide +kernel

end Sqf
