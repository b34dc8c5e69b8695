import Sqf.Proofs.Token.Shape

/-!
# The tokens tile the text

Pieces stand one behind the other, so their tokens do as well, and a diagnostic is
found at the piece it is about and nowhere else. `tiles_scan` says what follows for
a source text: the tokens come in order and do not overlap, the text under a token
is what the token says, and every byte that is under no token belongs to blanks, to
a comment, to a directive or to a character that is reported.
-/

namespace Sqf

/-! ## Tilings -/

/-- Whether a diagnostic is about a character that starts no token. -/
def isUnrecognised (d : Diagnostic) : Bool :=
  match d.cause with
  | .unrecognisedToken _ => true
  | _ => false

/-- The text under a token is its value. Under a string there is the value between quotes, with
the quotes in it doubled; the second quote is missing if that is reported. -/
def Spells (diagnostics : List Diagnostic) (t : Token) (text : List Char) : Prop :=
  if t.kind = .string then
    ∃ quote, (quote = '"' ∨ quote = '\'') ∧ text = quote :: (Text.doubled quote t.value.toList ++
      if ⟨.unterminatedString, t.span⟩ ∈ diagnostics then [] else [quote])
  else text = t.value.toList

/-- What may stand outside of tokens: text that is passed over, or a single character with just
one diagnostic about it. -/
inductive Untokened (diagnostics : List Diagnostic) (before text after : List Char) : Prop
  | skipped (h : Text.Skipped before text after)
  | unrecognised {c : Char} (htext : text = [c])
    (h : (diagnostics.filter fun d =>
        isUnrecognised d && d.span == ⟨Text.width before, Text.width (before ++ [c])⟩) =
      [⟨.unrecognisedToken (.ofList [c]), ⟨Text.width before, Text.width (before ++ [c])⟩⟩])

/-- The tokens and diagnostics account for all of the text. A stretch of the text is given by
what stands before and behind it, so it begins and ends between characters. -/
structure Tiles (source : List Char) (scanned : Scanned) : Prop where
  ordered : scanned.tokens.Pairwise fun t u =>
    t.span.start < u.span.start ∧ t.span.stop ≤ u.span.start
  ended : ∃ words, scanned.tokens = words ++ [.endAt (Text.width source)] ∧
    ∀ t ∈ words, t.kind ≠ .endOfInput ∧ t.span.start < t.span.stop
  spelled : ∀ t ∈ scanned.tokens, t.kind ≠ .endOfInput → ∃ before text after,
    source = before ++ text ++ after ∧
      t.span = ⟨Text.width before, Text.width (before ++ text)⟩ ∧
      Spells scanned.diagnostics t text
  covered : ∀ byte < Text.width source,
    (∃ t ∈ scanned.tokens, t.span.start ≤ byte ∧ byte < t.span.stop) ∨
    ∃ before text after, source = before ++ text ++ after ∧
      Text.width before ≤ byte ∧ byte < Text.width (before ++ text) ∧
      (∀ t ∈ scanned.tokens, t.span.stop ≤ Text.width before ∨
        Text.width (before ++ text) ≤ t.span.start) ∧
      Untokened scanned.diagnostics before text after

/-- The token as it stands `n` bytes further on. -/
def Token.moved (n : Nat) (t : Token) : Token := { t with span := t.span.shift n }

namespace Piece

variable {start : Nat} {ps front back : List Piece} {p : Piece} {t : Token} {d : Diagnostic}

/-! ## Places -/

/-- Where a piece begins that stands behind others. -/
def placeAfter (start : Nat) (front : List Piece) : Nat :=
  start + Text.width (front.map text).flatten

/-- Pieces are passed one by one. -/
theorem placeAfter_cons (start : Nat) (p : Piece) (front : List Piece) :
    placeAfter start (p :: front) = placeAfter (start + Text.width p.text) front := by
  simp [placeAfter, Text.width_append, Nat.add_assoc]

/-- The tokens of pieces are those before one of them, its own and those behind it. -/
theorem tokens_split (start : Nat) (front back : List Piece) (p : Piece) :
    tokens start (front ++ p :: back) = tokens start front ++
      ((p.token? (placeAfter start front)).toList ++
        tokens (placeAfter start front + Text.width p.text) back) :=
  tokens_append start front (p :: back)

/-- So are the diagnostics. -/
theorem diagnostics_split (start : Nat) (front back : List Piece) (p : Piece) :
    diagnostics start (front ++ p :: back) = diagnostics start front ++
      ((p.diagnostic? (placeAfter start front)).toList ++
        diagnostics (placeAfter start front + Text.width p.text) back) :=
  diagnostics_append start front (p :: back)

/-- Pieces that stand further on have their tokens there. -/
theorem tokens_moved (n start : Nat) (ps : List Piece) :
    tokens (start + n) ps = (tokens start ps).map (Token.moved n) := by
  induction ps generalizing start with
  | nil => rfl
  | cons p ps ih =>
    have htoken : p.token? (start + n) = (p.token? start).map (Token.moved n) := by
      unfold token?
      split <;> simp [Token.moved, Span.shift] <;> omega
    have hplace : start + n + Text.width p.text = start + Text.width p.text + n := by omega
    rw [tokens, tokens, htoken, hplace, ih, List.map_append]
    cases p.token? start <;> rfl

/-- They have their diagnostics there as well. -/
theorem diagnostics_moved (n start : Nat) (ps : List Piece) :
    diagnostics (start + n) ps = (diagnostics start ps).map (Diagnostic.shift n) := by
  induction ps generalizing start with
  | nil => rfl
  | cons p ps ih =>
    have hdiagnostic : p.diagnostic? (start + n) = (p.diagnostic? start).map (.shift n) := by
      unfold diagnostic?
      split <;> simp [Diagnostic.shift, Span.shift] <;> omega
    have hplace : start + n + Text.width p.text = start + Text.width p.text + n := by omega
    rw [diagnostics, diagnostics, hdiagnostic, hplace, ih, List.map_append]
    cases p.diagnostic? start <;> rfl

/-- A token has the span of its piece. -/
theorem span_token? (h : p.token? start = some t) :
    t.span = ⟨start, start + Text.width p.text⟩ := by
  unfold token? at h
  split at h <;> cases h <;> rfl

/-- A diagnostic starts where its piece does. -/
theorem start_diagnostic? (h : p.diagnostic? start = some d) : d.span.start = start := by
  unfold diagnostic? at h
  split at h <;> cases h <;> rfl

/-- A token is the one of some piece. -/
theorem exists_of_mem_tokens (h : t ∈ tokens start ps) :
    ∃ front p back, ps = front ++ p :: back ∧ p.token? (placeAfter start front) = some t := by
  induction ps generalizing start with
  | nil => cases h
  | cons p ps ih =>
    rw [tokens, List.mem_append, Option.mem_toList] at h
    rcases h with h | h
    · exact ⟨[], p, ps, rfl, h⟩
    · rcases ih h with ⟨front, q, back, rfl, hq⟩
      exact ⟨p :: front, q, back, rfl, by rwa [placeAfter_cons]⟩

/-- Tokens are within the text of the pieces. -/
theorem bounds_of_mem_tokens (h : t ∈ tokens start ps) :
    start ≤ t.span.start ∧ t.span.stop ≤ placeAfter start ps := by
  rcases exists_of_mem_tokens h with ⟨front, p, back, rfl, ht⟩
  rw [span_token? ht]
  simp only [placeAfter, List.map_append, List.map_cons, List.flatten_append, List.flatten_cons,
    Text.width_append]
  omega

theorem width_text_pos (h : p.text ≠ []) : 0 < Text.width p.text :=
  Nat.pos_of_ne_zero fun hzero => h (Text.width_eq_zero_iff.1 hzero)

/-- Tokens of pieces that are not empty stand one behind the other. -/
theorem tokens_pairwise (hne : ∀ p ∈ ps, p.text ≠ []) :
    (tokens start ps).Pairwise fun t u =>
      t.span.start < u.span.start ∧ t.span.stop ≤ u.span.start := by
  induction ps generalizing start with
  | nil => exact .nil
  | cons p ps ih =>
    rw [tokens, List.pairwise_append]
    refine ⟨?_, ih fun q hq => hne q (List.mem_cons_of_mem _ hq), ?_⟩
    · cases p.token? start <;> simp
    · intro t ht u hu
      rw [Option.mem_toList] at ht
      have hpos := width_text_pos (hne p List.mem_cons_self)
      have hbound := (bounds_of_mem_tokens hu).1
      rw [span_token? ht]
      simp only
      omega

/-- Diagnostics start in their pieces. -/
theorem diagnostics_bounds (hne : ∀ p ∈ ps, p.text ≠ []) (h : d ∈ diagnostics start ps) :
    start ≤ d.span.start ∧ d.span.start < placeAfter start ps := by
  induction ps generalizing start with
  | nil => cases h
  | cons p ps ih =>
    have hpos := width_text_pos (hne p List.mem_cons_self)
    rw [diagnostics, List.mem_append, Option.mem_toList] at h
    rw [placeAfter_cons]
    rcases h with h | h
    · rw [start_diagnostic? h]
      exact ⟨Nat.le_refl _, Nat.lt_of_lt_of_le (Nat.lt_add_of_pos_right hpos)
        (Nat.le_add_right ..)⟩
    · rcases ih (fun q hq => hne q (List.mem_cons_of_mem _ hq)) h with ⟨hle, hlt⟩
      exact ⟨Nat.le_trans (Nat.le_add_right ..) hle, hlt⟩

/-- What is reported where a piece begins is what is wrong with that piece. -/
theorem diagnostics_at (hne : ∀ q ∈ front ++ p :: back, q.text ≠ []) :
    (diagnostics start (front ++ p :: back)).filter
        (fun d => d.span.start == placeAfter start front) =
      (p.diagnostic? (placeAfter start front)).toList := by
  -- Diagnostics before and behind the piece start elsewhere.
  have hpos := width_text_pos (hne p (by simp))
  have hfront : ∀ d ∈ diagnostics start front, d.span.start ≠ placeAfter start front :=
    fun d hd => Nat.ne_of_lt
      (diagnostics_bounds (fun q hq => hne q (List.mem_append_left _ hq)) hd).2
  have hback : ∀ d ∈ diagnostics (placeAfter start front + Text.width p.text) back,
      d.span.start ≠ placeAfter start front := by
    intro d hd
    have hbound := (diagnostics_bounds (fun q hq => hne q (by simp [hq])) hd).1
    omega
  have hhere : ∀ d ∈ (p.diagnostic? (placeAfter start front)).toList,
      (d.span.start == placeAfter start front) = true := by
    intro d hd
    rw [Option.mem_toList] at hd
    rw [start_diagnostic? hd, beq_self_eq_true]
  rw [diagnostics_split, List.filter_append, List.filter_append]
  rw [List.filter_eq_nil_iff.2 fun d hd => by simpa using hfront d hd,
    List.filter_eq_self.2 hhere, List.filter_eq_nil_iff.2 fun d hd => by simpa using hback d hd,
    List.nil_append, List.append_nil]

/-- So the diagnostics at the start of a piece are its own. -/
theorem mem_diagnostics_iff (hne : ∀ q ∈ front ++ p :: back, q.text ≠ [])
    (hd : d.span.start = placeAfter start front) :
    d ∈ diagnostics start (front ++ p :: back) ↔
      p.diagnostic? (placeAfter start front) = some d := by
  rw [← Option.mem_toList, ← diagnostics_at hne, List.mem_filter]
  simp [hd]

/-- Every byte is in a piece. -/
theorem exists_at {byte : Nat} (hstart : start ≤ byte) (h : byte < placeAfter start ps) :
    ∃ front p back, ps = front ++ p :: back ∧ placeAfter start front ≤ byte ∧
      byte < placeAfter start front + Text.width p.text := by
  induction ps generalizing start with
  | nil => simp only [placeAfter, List.map_nil, List.flatten_nil, Text.width_nil] at h; omega
  | cons p ps ih =>
    rw [placeAfter_cons] at h
    by_cases hbyte : byte < start + Text.width p.text
    · exact ⟨[], p, ps, rfl, hstart, hbyte⟩
    · rcases ih (Nat.le_of_not_lt hbyte) h with ⟨front, q, back, rfl, hfront, hq⟩
      exact ⟨p :: front, q, back, rfl, by rwa [placeAfter_cons], by rwa [placeAfter_cons]⟩

end Piece

/-! ## Scanned texts -/

section Scan

open Piece

variable {source : String} {front back : List Piece} {p : Piece}

/-- A piece of a text stands between those before and those behind it. -/
theorem toList_of_pieces (h : pieces source.toList = front ++ p :: back) :
    source.toList = (front.map text).flatten ++ p.text ++ (back.map text).flatten := by
  have hflat := flatten_pieces source.toList
  rw [h] at hflat
  simpa using hflat.symm

/-- The pieces of a text are not empty. -/
theorem text_ne_nil_of_pieces (h : pieces source.toList = front ++ p :: back) :
    ∀ q ∈ front ++ p :: back, q.text ≠ [] := by
  rw [← h]
  exact fun q hq => text_ne_nil hq

/-- The text of a piece that is a token is what the token says. -/
theorem spells_of_piece {t : Token} (h : pieces source.toList = front ++ p :: back)
    (ht : p.token? (placeAfter 0 front) = some t) :
    t.kind ≠ .endOfInput ∧ Spells (scan source).diagnostics t p.text := by
  have hshape := shape_of_cut h
  have hspan := span_token? ht
  have hdiagnostics : (scan source).diagnostics = diagnostics 0 (front ++ p :: back) := by
    rw [← h]
    rfl
  have hreported := mem_diagnostics_iff (d := ⟨.unterminatedString, t.span⟩)
    (text_ne_nil_of_pieces h) (congrArg Span.start hspan)
  rw [← hdiagnostics] at hreported
  -- A piece that is a token is plain, a string or one that is not closed.
  unfold token? at ht
  unfold Spells
  split at ht
  · next kind hform =>
    rw [hform] at hshape
    cases ht
    exact ⟨hshape.2, by rw [if_neg hshape.1, String.toList_ofList]⟩
  · next value hform =>
    rw [hform] at hshape
    cases ht
    rcases hshape with ⟨quote, hquote, htext⟩
    have hclosed : ¬ (p.diagnostic? (placeAfter 0 front) =
        some ⟨.unterminatedString,
          ⟨placeAfter 0 front, placeAfter 0 front + Text.width p.text⟩⟩) := by
      simp [diagnostic?, hform]
    refine ⟨by simp, ?_⟩
    rw [if_pos rfl]
    refine ⟨quote, hquote, ?_⟩
    rw [if_neg (hreported.not.2 hclosed), htext, String.toList_ofList]
  · next value hform =>
    rw [hform] at hshape
    cases ht
    rcases hshape with ⟨quote, hquote, htext, _⟩
    have hopen : p.diagnostic? (placeAfter 0 front) =
        some ⟨.unterminatedString,
          ⟨placeAfter 0 front, placeAfter 0 front + Text.width p.text⟩⟩ := by
      simp [diagnostic?, hform]
    refine ⟨by simp, ?_⟩
    rw [if_pos rfl]
    refine ⟨quote, hquote, ?_⟩
    rw [if_pos (hreported.2 hopen), htext, String.toList_ofList, List.append_nil]
  · cases ht

/-- A piece that is no token is passed over, or is a character with a report of its own. -/
theorem untokened_of_piece (h : pieces source.toList = front ++ p :: back)
    (hp : p.token? (placeAfter 0 front) = none) :
    Untokened (scan source).diagnostics (front.map text).flatten p.text
      (back.map text).flatten := by
  have hshape := shape_of_cut h
  have hreported : (diagnostics 0 (front ++ p :: back)).filter
      (fun d => d.span.start == placeAfter 0 front) =
        (p.diagnostic? (placeAfter 0 front)).toList :=
    diagnostics_at (text_ne_nil_of_pieces h)
  have hdiagnostics : (scan source).diagnostics = diagnostics 0 (front ++ p :: back) := by
    rw [← h]
    rfl
  rw [← hdiagnostics] at hreported
  have hplace : placeAfter 0 front = Text.width (front.map text).flatten := Nat.zero_add _
  cases hform : p.form with
  | plain kind => simp [token?, hform] at hp
  | string value => simp [token?, hform] at hp
  | openString value => simp [token?, hform] at hp
  | unrecognised =>
    rw [hform] at hshape
    rcases hshape with ⟨c, hc⟩
    refine .unrecognised hc ?_
    -- Of the diagnostics that start here there is just the one about the character.
    have hfilter : ∀ d : Diagnostic, (isUnrecognised d &&
        d.span == ⟨Text.width (front.map text).flatten,
          Text.width ((front.map text).flatten ++ [c])⟩) =
        ((isUnrecognised d && d.span == ⟨Text.width (front.map text).flatten,
          Text.width ((front.map text).flatten ++ [c])⟩) &&
            d.span.start == placeAfter 0 front) := by
      intro d
      rw [Bool.eq_iff_iff]
      simp only [Bool.and_eq_true, beq_iff_eq, hplace]
      constructor
      · rintro ⟨hcause, hspan⟩
        exact ⟨⟨hcause, hspan⟩, congrArg Span.start hspan⟩
      · exact And.left
    rw [List.filter_congr fun d _ => hfilter d, ← List.filter_filter, hreported, hplace]
    simp [diagnostic?, hform, hc, isUnrecognised, Text.width_append]
  | _ =>
    rw [hform] at hshape
    exact .skipped hshape

/-- Behind all pieces the text ends. -/
theorem placeAfter_pieces (source : String) :
    placeAfter 0 (pieces source.toList) = Text.width source.toList := by
  rw [placeAfter, flatten_pieces, Nat.zero_add]

/-- The tokens of a text are those of its pieces and the one at its end. -/
theorem tokens_scan (source : String) :
    (scan source).tokens = tokens 0 (pieces source.toList) ++ [.endAt (Text.width source.toList)] :=
  rfl

/-- The end of input is the last token and none of the others. -/
theorem filter_tokens_scan (source : String) :
    (scan source).tokens.filter (·.kind ≠ .endOfInput) =
      tokens 0 (pieces source.toList) := by
  have hwords : ∀ t ∈ tokens 0 (pieces source.toList),
      decide (t.kind ≠ .endOfInput) = true := by
    intro t ht
    obtain ⟨front, p, back, hpieces, htoken⟩ := exists_of_mem_tokens ht
    exact decide_eq_true (spells_of_piece hpieces htoken).1
  rw [tokens_scan, List.filter_append, List.filter_eq_self.2 hwords]
  simp [Token.endAt]

/-- Tokens other than the end of input begin before it. -/
theorem start_lt_of_mem {t : Token} (ht : t ∈ tokens 0 (pieces source.toList)) :
    t.span.start < t.span.stop ∧ t.span.stop ≤ Text.width source.toList := by
  rcases exists_of_mem_tokens ht with ⟨front, p, back, hpieces, htoken⟩
  have hpos := width_text_pos (text_ne_nil_of_pieces hpieces p (by simp))
  have hstop := (bounds_of_mem_tokens ht).2
  rw [placeAfter_pieces] at hstop
  refine ⟨?_, hstop⟩
  rw [span_token? htoken]
  exact Nat.lt_add_of_pos_right hpos

/-- A piece that is no token is under none. -/
theorem disjoint_of_piece (h : pieces source.toList = front ++ p :: back)
    (hp : p.token? (placeAfter 0 front) = none) :
    ∀ t ∈ (scan source).tokens, t.span.stop ≤ placeAfter 0 front ∨
      placeAfter 0 front + Text.width p.text ≤ t.span.start := by
  intro t ht
  have hlength := placeAfter_pieces source
  rw [tokens_scan, h, tokens_split, hp, Option.toList_none, List.nil_append, List.append_assoc,
    List.mem_append, List.mem_append] at ht
  rcases ht with ht | ht | ht
  · exact .inl (bounds_of_mem_tokens ht).2
  · exact .inr (bounds_of_mem_tokens ht).1
  · rw [List.mem_singleton] at ht
    subst ht
    right
    show _ ≤ Text.width source.toList
    rw [← hlength, h]
    simp only [placeAfter, List.map_append, List.map_cons, List.flatten_append, List.flatten_cons,
      Text.width_append]
    omega

/-- The tokens and diagnostics of a source text account for all of it. -/
theorem tiles_scan (source : String) : Tiles source.toList (scan source) where
  ordered := by
    rw [tokens_scan, List.pairwise_append]
    refine ⟨tokens_pairwise fun p hp => text_ne_nil hp, List.pairwise_singleton _ _, ?_⟩
    intro t ht u hu
    rw [List.mem_singleton] at hu
    subst hu
    rcases start_lt_of_mem ht with ⟨hlt, hle⟩
    exact ⟨Nat.lt_of_lt_of_le hlt hle, hle⟩
  ended := by
    refine ⟨_, tokens_scan source, ?_⟩
    intro t ht
    rcases exists_of_mem_tokens ht with ⟨front, p, back, hpieces, htoken⟩
    exact ⟨(spells_of_piece hpieces htoken).1, (start_lt_of_mem ht).1⟩
  spelled := by
    intro t ht hkind
    rw [tokens_scan, List.mem_append, List.mem_singleton] at ht
    rcases ht with ht | rfl
    · rcases exists_of_mem_tokens ht with ⟨front, p, back, hpieces, htoken⟩
      refine ⟨_, p.text, _, toList_of_pieces hpieces, ?_, (spells_of_piece hpieces htoken).2⟩
      rw [span_token? htoken, Text.width_append, placeAfter, Nat.zero_add]
    · exact absurd rfl hkind
  covered := by
    intro byte hbyte
    rw [← placeAfter_pieces] at hbyte
    rcases exists_at (Nat.zero_le byte) hbyte with ⟨front, p, back, hpieces, hle, hlt⟩
    have hplace : placeAfter 0 front = Text.width (front.map text).flatten := Nat.zero_add _
    -- The byte is in a piece, and the piece is a token or it is not.
    cases hp : p.token? (placeAfter 0 front) with
    | some t =>
      left
      refine ⟨t, ?_, ?_⟩
      · rw [tokens_scan, hpieces, tokens_split, hp]
        simp
      · rw [span_token? hp]
        exact ⟨hle, hlt⟩
    | none =>
      right
      have hdisjoint := disjoint_of_piece hpieces hp
      refine ⟨_, p.text, _, toList_of_pieces hpieces, ?_, ?_, ?_, untokened_of_piece hpieces hp⟩
      · rwa [← hplace]
      · rwa [Text.width_append, ← hplace]
      · rwa [Text.width_append, ← hplace]

/-- A string without its closing quote is no token whose text is its value: the quote that opens
it is under the token too. -/
theorem open_string_not_value :
    ¬ ∀ t ∈ (scan "\"a").tokens, t.kind ≠ .endOfInput →
      ¬ (t.kind = .string ∧ ⟨.unterminatedString, t.span⟩ ∉ (scan "\"a").diagnostics) →
      Text.slice? t.span.start t.span.stop "\"a".toList = some t.value.toList := by
  intro h
  have hscan : scan "\"a" =
      ⟨[⟨.string, "a", ⟨0, 2⟩⟩, .endAt 2], [⟨.unterminatedString, ⟨0, 2⟩⟩]⟩ := by
    decide +kernel
  have htext := h ⟨.string, "a", ⟨0, 2⟩⟩ (by rw [hscan]; simp) (by simp) (by rw [hscan]; simp)
  revert htext
  decide +kernel

end Scan

end Sqf
