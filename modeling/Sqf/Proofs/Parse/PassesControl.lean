import Sqf.Proofs.Parse.Passes

/-!
# Constructs are read

A construct is read with its parts, whatever is missing of it (`Level.control_reads`), if the
parsers for what stands inside of it pass (`LevelPasses`).
-/

namespace Sqf.Parse

/-- Passing over tokens stops at one of the kinds, or does not leave the statement. -/
theorem kind_skipUntil (stops : List Kind) (s : State) :
    let k := (skipUntil stops s).next.kind
    stops.contains k = true ∨ k.isSeparator = true ∨ k = .closeCurly ∨ k = .endOfInput := by
  suffices hdrop : ∀ depth ts t others, List.drop (untilLength stops depth ts) ts = t :: others →
      stops.contains t.kind = true ∨ t.kind.isSeparator = true ∨ t.kind = .closeCurly ∨
        t.kind = .endOfInput by
    intro k
    cases hrest : (skipUntil stops s).next.rest with
    | nil => exact .inr (.inr (.inr (State.kind_nil hrest)))
    | cons t others =>
      have hkind : k = t.kind := State.kind_cons hrest
      rw [hkind]
      exact hdrop 0 s.rest t others hrest
  intro depth ts t others
  fun_induction untilLength stops depth ts with
  | case1 => simp
  | case2 depth t' ts hend =>
    rintro ⟨⟩
    exact .inr (.inr (.inr hend))
  | case3 depth t' ts hend hstop =>
    rintro ⟨⟩
    simp only [Bool.and_eq_true, Bool.or_eq_true, beq_iff_eq] at hstop
    rcases hstop.2 with (hstop | hstop) | hstop
    · exact .inl hstop
    · exact .inr (.inl hstop)
    · exact .inr (.inr (.inl hstop))
  | case4 depth t' ts hend hstop hopens ih => exact ih
  | case5 depth t' ts hend hstop hopens hcloses ih => exact ih
  | case6 depth t' ts hend hstop hopens hcloses ih => exact ih

/-- The parsers for what stands inside of a construct pass. -/
structure LevelPasses (inner : Level) : Prop where
  expr : ∀ tier s, PassesOrFails (inner.expr tier) (fun e ns _ => ns = [.expr e]) s
  block : ∀ s, s.kind = .openCurly → Passes .whole inner.block (fun b ns _ => ns = [.block b]) s

/-- A construct that starts in the state `s` is read with its parts, up to where it ends. -/
def IsRead (s : State) (c : Control) (ns : List Node) (t : State) : Prop :=
  ns = c.children ∧ c.span = t.spanFrom s.token.span

/-- A construct is read, be it a statement or an expression. -/
def ReadsControl (p : Parse Control) (s : State) : Prop :=
  ∀ n : Node, n.control? = some (p s).value → Passage .whole s [n] (p s).next

/-- The parts are read behind the keyword. -/
theorem ReadsControl.of_parts {f : Token → Parse Control} {s : State}
    (h : Passes .parts (f s.token) (IsRead s) (advance s).next) :
    ReadsControl (advance >>= f) s := by
  unfold ReadsControl
  rw [value_bind, next_bind, value_advance]
  obtain ⟨ns, hreads, rfl, hspan⟩ := h
  intro n hn
  exact .control hn hspan hreads

namespace Level

variable {inner : Level} (levels : LevelPasses inner) {s : State}

include levels

/-- A part that may be missing is one node or none. -/
theorem part_passes (tier : Tier) :
    Passes .parts (inner.part tier) (fun e ns _ => ns = exprNodes e) s := by
  refine Passes.run_bind (levels.expr tier s) (fun e t => Passes.pure ?_) fun d t _ _ => ?_
  · rintro _ rfl
    rfl
  · exact Passes.report_bind (Passes.pure rfl)

/-- So is a part that is skipped when it cannot be read. -/
theorem partOrSkip_passes (tier : Tier) (stops : List Kind) :
    Passes .parts (inner.partOrSkip tier stops) (fun e ns _ => ns = exprNodes e) s := by
  refine Passes.bind (part_passes levels tier) fun e t => ?_
  have hgiven (u : State) : Passes .parts (Pure.pure e : Parse (Option Expr))
      (fun e' ms _ => ∀ ns, ns = exprNodes e → ns ++ ms = exprNodes e') u :=
    Passes.pure fun ns hns => by rw [List.append_nil, hns]
  cases e with
  | none => exact Passes.skipUntil_bind fun u => hgiven u
  | some e => exact hgiven t

/-- Where a part is missing the next token was reported. -/
theorem reported_of_part {tier : Tier} (h : (inner.part tier s).value = none) :
    ∃ d u, s.Reaches u ∧ d.span = u.token.span ∧ (inner.part tier s).next = (report d u).next := by
  obtain ⟨ns, hreads, houtcome⟩ := levels.expr tier s
  unfold part at h ⊢
  rw [value_bind] at h
  rw [next_bind]
  cases hvalue : ((inner.expr tier).run s).value with
  | ok e =>
    rw [hvalue] at h
    cases h
  | error d =>
    rw [hvalue] at houtcome
    exact ⟨d, _, hreads.reaches, houtcome, rfl⟩

/-- Behind the report tokens are passed over. -/
theorem reported_of_partOrSkip {tier : Tier} {stops : List Kind}
    (h : (inner.partOrSkip tier stops s).value = none) :
    ∃ d u, Reported s d u (inner.partOrSkip tier stops s).next ∧
      (inner.partOrSkip tier stops s).next = (skipUntil stops (report d u).next).next := by
  unfold partOrSkip at h ⊢
  rw [value_bind] at h
  rw [next_bind]
  cases hfound : (inner.part tier s).value with
  | some e =>
    rw [hfound] at h
    cases h
  | none =>
    obtain ⟨d, u, hreaches, hspan, hnext⟩ := reported_of_part levels hfound
    rw [hnext]
    exact ⟨d, u, ⟨hreaches, hspan, reaches_drop _ _⟩, rfl⟩

/-- A branch is a node, if only a placeholder. -/
theorem branch_passes : Passes .parts inner.branch (fun e ns _ => ns = [.expr e]) s := by
  refine Passes.run_bind (levels.expr .unary s) (fun e t => Passes.pure ?_) fun d t _ hd => ?_
  · rintro _ rfl
    rfl
  · exact ⟨_, .failed hd, rfl⟩

/-- A block that may be missing. -/
theorem blockPart_passes (expectation : String) :
    Passes .parts (inner.blockPart expectation) (fun b ns _ => ns = blockNodes b) s := by
  unfold blockPart
  refine Passes.kind_bind ?_
  split
  · next hk =>
    refine Passes.bind (levels.block s hk).parts fun b t => Passes.pure ?_
    rintro _ rfl
    rfl
  · exact Passes.reportUnexpected_bind fun u => Passes.pure rfl

/-- The body of a loop or of a `switch`. -/
theorem doBody_passes : Passes .parts inner.doBody (fun b ns _ => ns = blockNodes b) s := by
  unfold doBody
  refine Passes.kind_bind ?_
  split
  · exact Passes.advance_bind (blockPart_passes levels _)
  · exact Passes.reportUnexpected_bind fun u => Passes.pure rfl

/-- The branch is read behind its keyword. If there is none, it is reported here, as the condition
has been read. -/
theorem ifBranch_passes {hasCondition : Bool}
    (h : hasCondition = true ∨ s.kind = .thenWord ∨ s.kind = .exitWithWord) :
    Passes .parts (inner.ifBranch hasCondition) (fun found ns _ => ns = [.expr found.2]) s := by
  have hkeyword (form : IfForm) (t : State) :
      Passes .parts (do return (form, ← inner.branch))
        (fun (found : IfForm × Expr) ns _ => ns = [.expr found.2]) t := by
    refine Passes.bind (branch_passes levels) fun e u => Passes.pure ?_
    rintro _ rfl
    rfl
  -- Where the keyword is missing, its diagnostic stands at the same token as the placeholder.
  unfold ifBranch
  refine Passes.kind_bind ?_
  split
  · exact Passes.advance_bind (hkeyword .thenBranch _)
  · exact Passes.advance_bind (hkeyword .exitWith _)
  · next hthen hexitWith =>
    obtain rfl : hasCondition = true :=
      h.resolve_right fun hk => hk.elim hthen hexitWith
    refine ⟨_, .part (.skipped rfl ?_ ⟨.refl, span_unexpected s _, .refl⟩ fun _ => .inl rfl), rfl⟩
    exact (State.region_of_le (Nat.le_refl s.rest.length)).symm

omit levels in
/-- Without a keyword nothing more is reported if the condition has been. -/
theorem ifBranch_missing (hthen : s.kind ≠ .thenWord) (hexitWith : s.kind ≠ .exitWithWord) :
    Leads (inner.ifBranch false) s (.thenBranch, .error (.point s.token.span.start)) s := by
  unfold ifBranch
  refine Leads.bind (a := s.kind) (t := s) ⟨rfl, rfl⟩ ?_
  split
  · contradiction
  · contradiction
  · exact ⟨rfl, rfl⟩

/-- The other branch, if there is one. -/
theorem elseBranch_passes (form : IfForm) :
    Passes .parts (inner.elseBranch form) (fun e ns _ => ns = exprNodes e) s := by
  unfold elseBranch
  refine Passes.kind_bind ?_
  split
  · refine Passes.advance_bind (Passes.bind (branch_passes levels) fun e u => Passes.pure ?_)
    rintro _ rfl
    rfl
  · exact Passes.pure rfl

omit levels in
/-- Without its keyword nothing is read. -/
theorem elseBranch_missing (form : IfForm) (h : s.kind ≠ .elseWord) :
    Leads (inner.elseBranch form) s none s := by
  simp [Leads, elseBranch, h]

/-- An `if` whose condition cannot be read, and that has no branch behind it. -/
theorem ifThen_unbranched {t : State}
    (hmissing : Leads (inner.partOrSkip .unary [.thenWord, .exitWithWord]) (advance s).next none t)
    (hthen : t.kind ≠ .thenWord) (hexitWith : t.kind ≠ .exitWithWord) :
    ReadsControl inner.ifThen s := by
  obtain ⟨d, u, hreported, hnext⟩ := reported_of_partOrSkip levels hmissing.1
  rw [hmissing.2] at hreported hnext
  -- Tokens are not passed over up to an `else`, so there is no second branch either.
  have helse : t.kind ≠ .elseWord := by
    have hkind := kind_skipUntil [.thenWord, .exitWithWord] (report d u).next
    rw [← hnext] at hkind
    intro hk
    simp [hk, Kind.isSeparator] at hkind
  have hleads : Leads inner.ifThen s (.ifThen none .thenBranch (.error (.point t.token.span.start))
      none (t.spanFrom s.token.span)) t := by
    refine Leads.bind ⟨value_advance s, rfl⟩ (hmissing.bind ?_)
    refine (ifBranch_missing hthen hexitWith).bind ?_
    exact (elseBranch_missing .thenBranch helse).bind ⟨rfl, rfl⟩
  intro n hn
  rw [hleads.2]
  rw [hleads.1] at hn
  exact .unbranched hn hreported

/-- An `if` is read with its parts. One without condition and keyword is a case of its own. -/
theorem ifThen_reads : ReadsControl inner.ifThen s := by
  generalize htd : inner.partOrSkip .unary [.thenWord, .exitWithWord] (advance s).next = found
  -- The placeholder of the branch is reported if there is a condition. If there is none, what was
  -- skipped for it has been reported instead.
  by_cases hbranch : found.value.isSome = true ∨ found.next.kind = .thenWord ∨
      found.next.kind = .exitWithWord
  · subst htd
    refine ReadsControl.of_parts ?_
    refine Passes.bind_run (partOrSkip_passes levels _ _) ?_
    refine Passes.bind (ifBranch_passes levels hbranch) fun found v => ?_
    refine Passes.bind (elseBranch_passes levels _) fun otherwise w => ?_
    refine Passes.spanFrom_bind (Passes.pure ?_)
    rintro _ rfl _ rfl _ rfl
    exact ⟨by simp [Control.children, exprNodes], rfl⟩
  · rw [not_or, not_or, Bool.not_eq_true, Option.isSome_eq_false_iff, Option.isNone_iff_eq_none]
      at hbranch
    obtain ⟨hnone, hthen, hexitWith⟩ := hbranch
    subst htd
    exact ifThen_unbranched levels ⟨hnone, rfl⟩ hthen hexitWith

/-- A `while` loop is read with its parts. -/
theorem whileDo_reads : ReadsControl inner.whileDo s := by
  refine ReadsControl.of_parts ?_
  refine Passes.bind (partOrSkip_passes levels _ _) fun condition u => ?_
  refine Passes.bind (doBody_passes levels) fun body v => ?_
  refine Passes.spanFrom_bind (Passes.pure ?_)
  rintro _ rfl _ rfl
  exact ⟨by simp [Control.children, exprNodes, blockNodes], rfl⟩

/-- A `switch` is read with its parts. -/
theorem switchDo_reads : ReadsControl inner.switchDo s := by
  refine ReadsControl.of_parts ?_
  refine Passes.bind (partOrSkip_passes levels _ _) fun subject u => ?_
  refine Passes.bind (doBody_passes levels) fun body v => ?_
  refine Passes.spanFrom_bind (Passes.pure ?_)
  rintro _ rfl _ rfl
  exact ⟨by simp [Control.children, exprNodes, blockNodes], rfl⟩

/-- A bound of a range. -/
theorem bound_passes : Passes .parts inner.bound (fun e ns _ => ns = exprNodes e) s :=
  Passes.advance_bind (partOrSkip_passes levels _ _)

/-- A bound that is reported when it is missing. -/
theorem requiredBound_passes (keyword : Kind) (expectation : String) :
    Passes .parts (inner.requiredBound keyword expectation) (fun e ns _ => ns = exprNodes e) s := by
  unfold requiredBound
  refine Passes.kind_bind ?_
  split
  · exact bound_passes levels
  · exact Passes.reportUnexpected_bind fun t => Passes.skipUntil_bind fun u => Passes.pure rfl

/-- The nodes of a loop header. -/
def headerNodes (header : ForHeader) : List Node := header.parts.map .expr

/-- A range has the bounds that come before the first one that is missing. -/
theorem rangeHeader_passes :
    Passes .parts inner.rangeHeader (fun header ns _ => ns = headerNodes header) s := by
  refine Passes.advance_bind (Passes.bind (requiredBound_passes levels _ _) fun first u => ?_)
  cases first with
  | none =>
    refine Passes.pure ?_
    rintro _ rfl
    rfl
  | some first =>
    refine Passes.bind (requiredBound_passes levels _ _) fun last v => ?_
    cases last with
    | none =>
      refine Passes.pure ?_
      rintro _ rfl _ rfl
      rfl
    | some last =>
      refine Passes.kind_bind ?_
      split
      · refine Passes.bind (bound_passes levels) fun step w => Passes.pure ?_
        rintro _ rfl _ rfl _ rfl
        simp [headerNodes, ForHeader.parts, exprNodes]
      · refine Passes.pure ?_
        rintro _ rfl _ rfl
        rfl

/-- The header in brackets has the first elements of its array. -/
theorem classicHeader_passes :
    Passes .parts inner.classicHeader (fun header ns _ => ns = headerNodes header) s := by
  obtain ⟨ns, hreads, hns⟩ := part_passes (s := s) levels .unary
  unfold classicHeader Passes
  rw [value_bind, next_bind]
  generalize (inner.part .unary s).value = found at hns
  generalize (inner.part .unary s).next = t at hreads
  split
  · next elements span =>
    have hmem : .expr (.array elements span) ∈ ns := by simp [hns, exprNodes]
    exact ⟨_, (hreads.elements hmem).sublist ((ForHeader.parts_sublist elements).map _), rfl⟩
  · exact ⟨[], .pass (hreads.reaches.trans (reaches_drop _ _)), rfl⟩

/-- A `for` loop is read with its header and its body. -/
theorem forDo_reads : ReadsControl inner.forDo s := by
  -- The body comes behind the header, whatever that is.
  have hbody (header : ForHeader) (u : State) :
      Passes .parts (do
          let body ← inner.doBody
          return .forDo header body (← spanFrom s.token.span))
        (fun c ms t => ∀ ns, ns = headerNodes header → IsRead s c (ns ++ ms) t) u := by
    refine Passes.bind (doBody_passes levels) fun body v => ?_
    refine Passes.spanFrom_bind (Passes.pure ?_)
    rintro _ rfl _ rfl
    exact ⟨by simp [Control.children, headerNodes, blockNodes], rfl⟩
  refine ReadsControl.of_parts (Passes.kind_bind ?_)
  split
  · exact Passes.bind (rangeHeader_passes levels) fun header u => hbody header u
  · exact Passes.bind (classicHeader_passes levels) fun header u => hbody header u
  · refine Passes.reportUnexpected_bind fun u => Passes.skipUntil_bind fun v => ?_
    exact (hbody .missing v).weaken fun c ms t hms => hms [] rfl

/-- The value of a `case`. -/
theorem caseCondition_passes (isDefault : Bool) :
    Passes .parts (inner.caseCondition isDefault) (fun e ns _ => ns = exprNodes e) s := by
  unfold caseCondition
  refine Passes.kind_bind ?_
  split
  · exact Passes.pure rfl
  · exact partOrSkip_passes levels _ _

/-- The block of a `case`. -/
theorem caseBlock_passes :
    Passes .parts inner.caseBlock (fun b ns _ => ns = blockNodes b) s := by
  unfold caseBlock
  refine Passes.kind_bind ?_
  split
  · next hk =>
    refine Passes.bind (levels.block s hk).parts fun b t => Passes.pure ?_
    rintro _ rfl
    rfl
  · exact Passes.pure rfl

/-- A case is read with its parts. -/
theorem case_reads : ReadsControl inner.case s := by
  refine ReadsControl.of_parts ?_
  refine Passes.bind (caseCondition_passes levels _) fun condition u => ?_
  refine Passes.quiet_bind (reaches_caseColon u) ?_
  refine Passes.bind (caseBlock_passes levels) fun b w => ?_
  refine Passes.spanFrom_bind (Passes.pure ?_)
  rintro _ rfl _ rfl
  exact ⟨by simp [Control.children, exprNodes, blockNodes], rfl⟩

/-- Every construct is read with its parts. -/
theorem control_reads : ReadsControl inner.control s := by
  have hkind {f : Kind → Parse Control} (h : ReadsControl (f s.kind) s) :
      ReadsControl (kind >>= f) s := h
  refine hkind ?_
  split
  · exact ifThen_reads levels
  · exact whileDo_reads levels
  · exact forDo_reads levels
  · exact switchDo_reads levels
  · exact case_reads levels

end Level

end Sqf.Parse
