import Sqf.Proofs.Parse.Sound
import Sqf.Proofs.Token.Places

/-!
# Places in trees and diagnostics

Parsers make spans of those of the tokens and of the end of the last token read. As the
tokens come in order, everything read so far is before that end, so the spans are valid in
the source text. This is an invariant of parsers (`Invariant.places`), so what holds of it
holds of all that is read.
-/

namespace Sqf.Parse

/-- The tokens and the end of input are in order, and have valid spans. -/
structure Laid (source : String) (tokens : List Token) (finish : Span) : Prop where
  valid : ∀ t ∈ tokens, t.span.Valid source
  ordered : tokens.Pairwise fun t u => t.span.stop ≤ u.span.start
  validEnd : finish.Valid source
  ended : ∀ t ∈ tokens, t.span.stop ≤ finish.stop

/-- A parser stands among the tokens. Those that it has read are before the end of the last one,
and what it has reported has valid spans. -/
structure Among (source : String) (tokens : List Token) (finish : Span) (s : State) : Prop where
  finish : s.finish = finish
  read : ∃ front, tokens = front ++ s.rest ∧ ∀ t ∈ front, t.span.stop ≤ s.lastEnd
  lastEnd : (⟨s.lastEnd⟩ : String.Pos.Raw).IsValid source
  reports : ∀ d ∈ s.diagnostics, d.span.Valid source

namespace Among

variable {source : String} {tokens : List Token} {finish : Span} {s t : State}
  (h : Laid source tokens finish)

include h

/-- The next token has a place in the source. -/
theorem token (hs : Among source tokens finish s) : s.token.span.Valid source := by
  obtain ⟨front, htokens, -⟩ := hs.read
  cases hrest : s.rest with
  | nil =>
    rw [State.token, hrest]
    exact hs.finish ▸ h.validEnd
  | cons t ts =>
    rw [State.token_cons hrest]
    exact h.valid t (by simp [htokens, hrest])

/-- Of some tokens that are read the last one decides where they end. -/
theorem drop (n : Nat) (hs : Among source tokens finish s) :
    Among source tokens finish (s.drop n) := by
  obtain ⟨front, htokens, hfront⟩ := hs.read
  have hsplit : tokens = front ++ s.rest.take n ++ s.rest.drop n := by
    rw [List.append_assoc, List.take_append_drop, htokens]
  suffices hend : (∀ t ∈ front ++ s.rest.take n, t.span.stop ≤ (s.drop n).lastEnd) ∧
      (⟨(s.drop n).lastEnd⟩ : String.Pos.Raw).IsValid source from
    ⟨hs.finish, ⟨_, hsplit, hend.1⟩, hend.2, hs.reports⟩
  rcases List.eq_nil_or_concat' (s.rest.take n) with hnone | ⟨passed, last, hpassed⟩
  · simp only [State.drop, hnone, List.getLast?_nil, List.append_nil]
    exact ⟨hfront, hs.lastEnd⟩
  · simp only [State.drop, hpassed, List.getLast?_concat]
    have hlast := h.valid last (by simp [hsplit, hpassed])
    -- Tokens are in order, so none of those before the last one stops behind it.
    refine ⟨?_, hlast.stop⟩
    have hordered := h.ordered
    rw [hsplit, hpassed, List.pairwise_append, ← List.append_assoc,
      List.pairwise_append] at hordered
    intro t ht
    rw [← List.append_assoc, List.mem_append, List.mem_singleton] at ht
    rcases ht with ht | rfl
    · exact Nat.le_trans (hordered.1.2.2 t ht last (List.mem_singleton_self _)) hlast.le
    · exact Nat.le_refl _

/-- So has the end of the input, which may be taken for the last token. -/
theorem finished (hs : Among source tokens finish s) :
    Among source tokens finish { s with lastEnd := s.finish.stop } := by
  obtain ⟨front, htokens, -⟩ := hs.read
  refine ⟨hs.finish, ⟨front, htokens, fun t ht => ?_⟩, hs.finish ▸ h.validEnd.stop, hs.reports⟩
  rw [hs.finish]
  exact h.ended t (by simp [htokens, ht])

omit h in
/-- A diagnostic may be kept if its place is in the source. -/
theorem report {d : Diagnostic} (hs : Among source tokens finish s) (hd : d.span.Valid source) :
    Among source tokens finish { s with diagnostics := s.diagnostics.push d } := by
  refine ⟨hs.finish, hs.read, hs.lastEnd, fun e he => ?_⟩
  rcases Array.mem_push.1 he with he | rfl
  · exact hs.reports e he
  · exact hd

/-- From the next token of one state to the end of the last token read in a later one. -/
theorem passed (hs : Among source tokens finish s) (ht : Among source tokens finish t)
    (hsuffix : t.rest <:+ s.rest) (hlt : t.rest.length < s.rest.length) :
    Span.Valid source ⟨s.token.span.start, t.lastEnd⟩ := by
  obtain ⟨front, hfront, -⟩ := hs.read
  obtain ⟨front', hfront', hbefore⟩ := ht.read
  obtain ⟨between, hbetween⟩ := hsuffix
  -- What has been read later starts with what had been read before.
  have hread : front' = front ++ between := by
    rw [hfront, ← hbetween, ← List.append_assoc] at hfront'
    exact (List.append_cancel_right hfront').symm
  obtain ⟨first, others, hfirst⟩ : ∃ first others, between = first :: others := by
    cases between with
    | nil => simp [← hbetween] at hlt
    | cons first others => exact ⟨first, others, rfl⟩
  have hrest : s.rest = first :: (others ++ t.rest) := by
    rw [← hbetween, hfirst, List.cons_append]
  have htoken : s.token = first := State.token_cons hrest
  have hvalid := hs.token h
  rw [htoken] at hvalid ⊢
  have hstop := hbefore first (by simp [hread, hfirst])
  exact .of_boundaries (Nat.le_trans hvalid.le hstop) hvalid.start ht.lastEnd

end Among

/-- All spans are valid in the source text. -/
def Invariant.places {source : String} {tokens : List Token} {finish : Span}
    (h : Laid source tokens finish) : Invariant where
  state := Among source tokens finish
  span := Span.Valid source
  leaf l := l.span.Valid source
  reported d := d.span.Valid source
  token hs := hs.token h
  leafOf hs _ hl := hl.span_eq ▸ hs.token h
  drop n hs := hs.drop h n
  finish _ hs := hs.finished h
  spanReported hd := hd
  plain _ hsp := hsp
  number hs _ _ := hs.token h
  report hs hd := hs.report hd
  freshId hs := ⟨hs.finish, hs.read, hs.lastEnd, hs.reports⟩
  stall hs := ⟨hs.finish, hs.read, hs.lastEnd, hs.reports⟩
  pointStart hsp := .point hsp.start
  pointStop hsp := .point hsp.stop
  join hsp hsp' := hsp.join hsp'
  spanFrom := by
    intro s sp hs hsp
    refine .of_boundaries (Nat.le_trans hsp.le (Nat.le_max_right ..)) hsp.start ?_
    rcases max_choice s.lastEnd sp.stop with h | h <;> rw [h]
    · exact hs.lastEnd
    · exact hsp.stop
  passed hs ht hsuffix hlt := hs.passed h ht hsuffix hlt

/-- The parser starts with the tokens of the pieces, and with the end behind them. -/
theorem initial_scan (source : String) :
    State.initial (scan source).tokens =
      { rest := Piece.tokens 0 (pieces source.toList)
        finish := .point (Text.width source.toList) } := by
  rw [tokens_scan, initial_append_end rfl]
  rfl

/-- The tokens of a source text are laid out in it. -/
theorem laid_scan (source : String) :
    Laid source (Piece.tokens 0 (pieces source.toList)) (.point (Text.width source.toList)) where
  valid t ht := valid_of_mem_tokens (by rw [tokens_scan]; exact List.mem_append_left _ ht)
  ordered := (Piece.tokens_pairwise fun _ hp => Piece.text_ne_nil hp).imp And.right
  validEnd := valid_end source
  ended _ ht := (start_lt_of_mem ht).2

/-- At the start nothing has been read, and all tokens have places. -/
theorem among_initial (source : String) :
    (Invariant.places (laid_scan source)).state (State.initial (scan source).tokens) := by
  rw [initial_scan]
  exact ⟨rfl, ⟨[], rfl, nofun⟩, String.Pos.Raw.isValid_zero, by simp⟩

/-- The spans of a script that has been read, and those of what was reported, are valid. -/
theorem parse_scan_places (table : Table) (source : String) :
    let parsed := parse table (scan source).tokens
    (Node.program parsed.program).Marked (Span.Valid source) (fun l => l.span.Valid source) ∧
      ∀ d ∈ parsed.diagnostics, d.span.Valid source := by
  intro parsed
  obtain ⟨hnext, hstatements⟩ := Level.statements_sound
    (level_sound (Invariant.places (laid_scan source)) table maxNesting) .file _
    (among_initial source)
  refine ⟨.of_children ?_ nofun ?_, ?_⟩
  · have hend := (Invariant.places (laid_scan source)).token hnext
    exact .of_boundaries (Nat.zero_le _) String.Pos.Raw.isValid_zero hend.stop
  · intro m hm
    obtain ⟨a, ha, rfl⟩ := List.mem_map.1 hm
    exact (hstatements a ha).marked
  · intro d hd
    exact hnext.reports d (Array.mem_toList_iff.1 hd)

/-- Every span in the tree and every diagnostic of a source has a place in it. -/
theorem parseSource_places (table : Table) (source : String) :
    let parsed := parseSource table source
    (Node.program parsed.program).Marked (Span.Valid source) (fun l => l.span.Valid source) ∧
      ∀ d ∈ parsed.diagnostics, d.span.Valid source := by
  obtain ⟨hmarked, hreports⟩ := parse_scan_places table source
  refine ⟨hmarked, fun d hd => ?_⟩
  rcases List.mem_append.1 ((Diagnostic.sortByStart_perm _).mem_iff.1 hd) with hd | hd
  · exact valid_of_mem_diagnostics hd
  · exact hreports d hd

end Sqf.Parse
