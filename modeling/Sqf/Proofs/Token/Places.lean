import Mathlib.Data.String.Basic
import Sqf.Proofs.Token.Tiling

/-!
# Places in a source text

Offsets count bytes, so not every offset is a place between two characters. A span is
`Valid` for a source text if it starts and stops at such places, in this order. The spans
of tokens and those that the scanner reports are.

Offsets that are kept in 32 bits start over at 2^32. As no valid span goes beyond its text,
nothing is lost in texts shorter than that (`wrapped_scan`), and what is kept of the tokens and
diagnostics still tiles the text (`scan_tiles`).
-/

namespace Sqf

/-- A span starts before it stops, within the text, and both at character boundaries. -/
structure Span.Valid (source : String) (s : Span) : Prop where
  le : s.start ≤ s.stop
  within : s.stop ≤ source.utf8ByteSize
  start : (⟨s.start⟩ : String.Pos.Raw).IsValid source
  stop : (⟨s.stop⟩ : String.Pos.Raw).IsValid source

namespace Span.Valid

variable {source : String} {s t : Span}

/-- A span is valid if it starts and stops at characters, in this order. -/
theorem of_boundaries {start stop : Nat} (hle : start ≤ stop)
    (hstart : (⟨start⟩ : String.Pos.Raw).IsValid source)
    (hstop : (⟨stop⟩ : String.Pos.Raw).IsValid source) : Valid source ⟨start, stop⟩ :=
  ⟨hle, hstop.le_rawEndPos, hstart, hstop⟩

/-- So is an empty one. -/
theorem point {offset : Nat} (h : (⟨offset⟩ : String.Pos.Raw).IsValid source) :
    Valid source (.point offset) :=
  of_boundaries (Nat.le_refl _) h h

theorem zero (source : String) : Valid source {} :=
  point String.Pos.Raw.isValid_zero

/-- Two valid spans are joined to one that is valid. -/
theorem join (hs : s.Valid source) (ht : t.Valid source) : (s.join t).Valid source := by
  refine of_boundaries ?_ ?_ ?_
  · exact Nat.le_trans (Nat.min_le_left ..) (Nat.le_trans hs.le (Nat.le_max_left ..))
  · rcases min_choice s.start t.start with h | h <;> rw [h]
    · exact hs.start
    · exact ht.start
  · rcases max_choice s.stop t.stop with h | h <;> rw [h]
    · exact hs.stop
    · exact ht.stop

end Span.Valid

/-! ## Scanned texts -/

/-- The width of a text is what it takes in UTF-8. -/
theorem width_eq_utf8ByteSize (cs : List Char) :
    Text.width cs = (String.ofList cs).utf8ByteSize := by
  rw [String.utf8ByteSize_ofList]
  induction cs with
  | nil => rfl
  | cons c cs ih => rw [Text.width_cons, ih, String.utf8Len_cons, Nat.add_comm]

/-- A place between two stretches of a text. -/
theorem isValid_width {source : String} {front back : List Char}
    (h : source.toList = front ++ back) :
    (⟨Text.width front⟩ : String.Pos.Raw).IsValid source := by
  rw [String.Pos.Raw.isValid_iff_exists_append]
  refine ⟨.ofList front, .ofList back, ?_, ?_⟩
  · rw [← String.ofList_append, ← h, String.ofList_toList]
  · rw [width_eq_utf8ByteSize]
    rfl

/-- The span of a stretch of a text. -/
theorem valid_stretch {source : String} {front text back : List Char}
    (h : source.toList = front ++ text ++ back) :
    Span.Valid source ⟨Text.width front, Text.width (front ++ text)⟩ := by
  have hfront : source.toList = front ++ (text ++ back) := by rw [h, List.append_assoc]
  refine .of_boundaries ?_ (isValid_width hfront) (isValid_width h)
  rw [Text.width_append]
  exact Nat.le_add_right _ _

/-- The end of a text. -/
theorem valid_end (source : String) : Span.Valid source (.point (Text.width source.toList)) := by
  have hend : source.toList = source.toList ++ [] := (List.append_nil _).symm
  exact .point (isValid_width hend)

/-- The span of a piece. -/
theorem valid_piece {source : String} {front back : List Piece} {p : Piece}
    (h : pieces source.toList = front ++ p :: back) :
    Span.Valid source ⟨Piece.placeAfter 0 front, Piece.placeAfter 0 front + Text.width p.text⟩ := by
  have hstretch := valid_stretch (toList_of_pieces h)
  rwa [Text.width_append, ← Nat.zero_add (Text.width _)] at hstretch

/-- Tokens have valid spans. -/
theorem valid_of_mem_tokens {source : String} {t : Token} (h : t ∈ (scan source).tokens) :
    t.span.Valid source := by
  rw [tokens_scan, List.mem_append, List.mem_singleton] at h
  rcases h with h | rfl
  · obtain ⟨front, p, back, hpieces, htoken⟩ := Piece.exists_of_mem_tokens h
    rw [Piece.span_token? htoken]
    exact valid_piece hpieces
  · exact valid_end source

namespace Piece

/-- No token is a comment. -/
theorem firstToken_ne_openComment (c : Char) (rest : List Char) :
    (firstToken c rest).1 ≠ .openComment := by
  unfold firstToken
  generalize hexLength (c :: rest) = hex
  simp only
  generalize (if hex = 0 then decimalLength (c :: rest) else hex) = number
  split
  · nofun
  split
  · nofun
  split
  · split <;> nofun
  · split <;> nofun

/-- An open comment goes up to the end of the text. -/
theorem first_openComment {fresh : Bool} {c : Char} {rest : List Char}
    (h : (first fresh c rest).1 = .openComment) :
    c = '/' ∧ rest.head? = some '*' ∧ (first fresh c rest).2 = rest.length := by
  generalize hfound : first fresh c rest = found at h ⊢
  unfold first at hfound
  -- The tests of the scanner in their order: only the one for block comments can give this form.
  split at hfound
  · subst hfound
    cases h
  split at hfound
  · subst hfound
    cases h
  split at hfound
  · next hmark =>
    simp only [Bool.and_eq_true, decide_eq_true_eq] at hmark
    split at hfound
    · subst hfound
      cases h
    · subst hfound
      exact ⟨hmark.1, hmark.2, rfl⟩
  split at hfound
  · split at hfound <;> subst hfound <;> cases h
  · subst hfound
    exact absurd h (firstToken_ne_openComment c rest)

/-- A comment that is not closed starts with its two characters. -/
theorem text_of_openComment {cs : List Char} {front back : List Piece} {p : Piece}
    (h : cut true cs = front ++ p :: back) (hp : p.form = .openComment) :
    ∃ body, p.text = '/' :: '*' :: body := by
  obtain ⟨c, rest, hform, htext, -⟩ := first_of_cut h
  rw [hp] at hform
  obtain ⟨rfl, hhead, hlength⟩ := first_openComment hform
  obtain ⟨body, rfl⟩ := List.head?_eq_some_iff.1 hhead
  rw [hlength, List.take_length] at htext
  exact ⟨body, htext.symm⟩

/-- A diagnostic is about some piece. -/
theorem exists_of_mem_diagnostics {start : Nat} {ps : List Piece} {d : Diagnostic}
    (h : d ∈ diagnostics start ps) :
    ∃ front p back, ps = front ++ p :: back ∧
      p.diagnostic? (placeAfter start front) = some d := by
  induction ps generalizing start with
  | nil => cases h
  | cons p ps ih =>
    rw [diagnostics, List.mem_append, Option.mem_toList] at h
    rcases h with h | h
    · exact ⟨[], p, ps, rfl, h⟩
    · rcases ih h with ⟨front, q, back, rfl, hq⟩
      exact ⟨p :: front, q, back, rfl, by rwa [placeAfter_cons]⟩

end Piece

/-- What the scanner reports has a valid span. -/
theorem valid_of_mem_diagnostics {source : String} {d : Diagnostic}
    (h : d ∈ (scan source).diagnostics) : d.span.Valid source := by
  obtain ⟨front, p, back, hpieces, hd⟩ := Piece.exists_of_mem_diagnostics h
  unfold Piece.diagnostic? at hd
  split at hd
  · next hform =>
    -- Only the mark of an open comment is reported.
    cases hd
    obtain ⟨body, hbody⟩ := Piece.text_of_openComment hpieces hform
    have htext := toList_of_pieces hpieces
    rw [hbody, List.append_assoc] at htext
    have hmark : source.toList = (front.map Piece.text).flatten ++ ['/', '*'] ++
        (body ++ (back.map Piece.text).flatten) := by
      rw [htext]
      simp
    have hstretch := valid_stretch hmark
    rwa [Text.width_append, ← Nat.zero_add (Text.width (List.flatten _))] at hstretch
  · cases hd
    exact valid_piece hpieces
  · cases hd
    exact valid_piece hpieces
  · cases hd

/-! ## Offsets in 32 bits -/

/-- The span as 32 bits keep it: its offsets start over at 2^32. -/
def Span.wrapped (s : Span) : Span := ⟨s.start % UInt32.size, s.stop % UInt32.size⟩

/-- What has been scanned, with the spans as 32 bits keep them. -/
def Scanned.wrapped (scanned : Scanned) : Scanned where
  tokens := scanned.tokens.map fun t => { t with span := t.span.wrapped }
  diagnostics := scanned.diagnostics.map fun d => { d with span := d.span.wrapped }

/-- In a text that is short enough nothing is lost of a valid span. -/
theorem Span.Valid.wrapped_eq {source : String} {s : Span} (h : s.Valid source)
    (hsize : source.utf8ByteSize < UInt32.size) : s.wrapped = s := by
  have hstop := Nat.lt_of_le_of_lt h.within hsize
  have hstart := Nat.lt_of_le_of_lt h.le hstop
  rw [wrapped, Nat.mod_eq_of_lt hstart, Nat.mod_eq_of_lt hstop]

/-- Of a text shorter than 2^32 bytes 32 bits keep all offsets. -/
theorem wrapped_scan {source : String} (hsize : source.utf8ByteSize < UInt32.size) :
    (scan source).wrapped = scan source := by
  have htokens : ∀ t ∈ (scan source).tokens, { t with span := t.span.wrapped } = t := by
    intro t ht
    rw [(valid_of_mem_tokens ht).wrapped_eq hsize]
  have hdiagnostics : ∀ d ∈ (scan source).diagnostics, { d with span := d.span.wrapped } = d := by
    intro d hd
    rw [(valid_of_mem_diagnostics hd).wrapped_eq hsize]
  rw [Scanned.wrapped, List.map_congr_left htokens, List.map_congr_left hdiagnostics]
  simp

/-- The tokens and diagnostics of a source text account for all of it, also with offsets in 32 bits
if the text is shorter than 2^32 bytes. -/
theorem scan_tiles {source : String} (hsize : source.utf8ByteSize < UInt32.size) :
    Tiles source.toList (scan source).wrapped := by
  rw [wrapped_scan hsize]
  exact tiles_scan source

/-- Two strings, of which only the first is closed, a character that is reported, and a comment. -/
theorem scan_tiles_broken :
    let source := "hint \"é\" ` /* a */ 'b"
    Tiles source.toList (scan source).wrapped :=
  scan_tiles (by decide)

end Sqf
