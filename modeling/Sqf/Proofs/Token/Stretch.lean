import Sqf.Proofs.Token.Lexeme
import Sqf.Proofs.Token.Tiling

/-!
# The text under tokens

Tokens that were scanned one after the other stand over a stretch of the source, which
`Text.slice?` finds by their places (`exists_stretch`). Under a single token that is no
string there is its value (`slice?_of_mem`).
-/

namespace Sqf

/-- What stands between two texts is found by its place. -/
theorem Text.slice?_middle (before text after : List Char) :
    Text.slice? (Text.width before) (Text.width (before ++ text)) (before ++ text ++ after) =
      some text := by
  have hle : Text.width before ≤ Text.width (before ++ text) := by
    rw [Text.width_append]
    exact Nat.le_add_right _ _
  have hlength : Text.width (before ++ text) - Text.width before = Text.width text := by
    rw [Text.width_append, Nat.add_sub_cancel_left]
  rw [Text.slice?, if_pos hle, List.append_assoc, Text.splitAt?_width, hlength]
  show Option.bind (Text.splitAt? (Text.width text) (text ++ after)) _ = some text
  rw [Text.splitAt?_width]
  rfl

/-- Under a token that is no string there is its value. -/
theorem slice?_of_mem {source : String} {t : Token}
    (ht : t ∈ Piece.tokens 0 (pieces source.toList)) (hkind : t.kind ≠ .string) :
    Text.slice? t.span.start t.span.stop source.toList = some t.value.toList := by
  rcases Piece.exists_of_mem_tokens ht with ⟨front, p, back, hpieces, htoken⟩
  have hspells := (spells_of_piece hpieces htoken).2
  rw [Spells, if_neg hkind] at hspells
  have hspan := Piece.span_token? htoken
  rw [Piece.placeAfter, Nat.zero_add, ← Text.width_append] at hspan
  rw [hspan, toList_of_pieces hpieces, Text.slice?_middle, hspells]

namespace Piece

variable {start : Nat} {ps : List Piece} {p : Piece} {t : Token}

theorem symbol?_openCurly {c : Char} {rest : List Char} {n : Nat}
    (h : symbol? c rest = some (.openCurly, n)) : c = '\x7b' := by
  unfold symbol? at h
  split at h <;> first | rfl | cases h

theorem first_openCurly {fresh : Bool} {c : Char} {rest : List Char}
    (h : (first fresh c rest).1 = .plain .openCurly) : c = '\x7b' := by
  unfold first firstToken at h
  simp only at h
  have hword (word : String) : Kind.ofWord word ≠ .openCurly := by
    intro heq
    have hname := Kind.isNameKind_ofWord word
    rw [heq] at hname
    cases hname
  -- Of all that a piece can be only a symbol is an opening brace.
  repeat' split at h
  all_goals first
    | exact absurd (Form.plain.inj h) (hword _)
    | cases h
  next hsymbol => exact symbol?_openCurly hsymbol

/-- An opening brace is written as such. -/
theorem text_of_openCurly {fresh : Bool} {cs : List Char} (hp : p ∈ cut fresh cs)
    (h : p.token? start = some t) (hkind : t.kind = .openCurly) : '\x7b' ∈ p.text := by
  obtain ⟨front, back, hcut⟩ := List.append_of_mem hp
  obtain ⟨c, rest, hform, htext, _⟩ := first_of_cut hcut
  have hplain : p.form = .plain .openCurly := by
    unfold token? at h
    split at h
    · next kind hkind' =>
      cases h
      rw [hkind', show kind = .openCurly from hkind]
    · cases h
      cases hkind
    · cases h
      cases hkind
    · cases h
  rw [hplain] at hform
  rw [← htext, first_openCurly hform]
  exact List.mem_cons_self

/-- Each token comes from a piece, and those before and behind it from the pieces before and
behind that one. -/
theorem exists_pieces_of_tokens {front back : List Token}
    (h : tokens start ps = front ++ t :: back) :
    ∃ qs p rs, ps = qs ++ p :: rs ∧ tokens start qs = front ∧
      p.token? (placeAfter start qs) = some t ∧
      tokens (placeAfter start (qs ++ [p])) rs = back := by
  induction ps generalizing start front with
  | nil => cases front <;> cases h
  | cons p ps ih =>
    rw [tokens] at h
    have hskip : ∀ {front' : List Token},
        tokens (start + Text.width p.text) ps = front' ++ t :: back →
        (p.token? start).toList ++ front' = front →
        ∃ qs q rs, p :: ps = qs ++ q :: rs ∧ tokens start qs = front ∧
          q.token? (placeAfter start qs) = some t ∧
          tokens (placeAfter start (qs ++ [q])) rs = back := by
      intro front' hback hfront
      obtain ⟨qs, q, rs, rfl, hqs, hq, hrs⟩ := ih hback
      refine ⟨p :: qs, q, rs, rfl, ?_, ?_, ?_⟩
      · rw [tokens, hqs, hfront]
      · rwa [placeAfter_cons]
      · rwa [List.cons_append, placeAfter_cons]
    cases htoken : p.token? start with
    | none =>
      rw [htoken] at h hskip
      exact hskip h rfl
    | some u =>
      rw [htoken] at h hskip
      cases front with
      | cons u' front =>
        obtain ⟨rfl, hback⟩ := List.cons.inj h
        exact hskip hback rfl
      | nil =>
        obtain ⟨rfl, hback⟩ := List.cons.inj h
        refine ⟨[], p, ps, rfl, rfl, htoken, ?_⟩
        rwa [List.nil_append, placeAfter_cons]

end Piece

/-- Tokens next to each other stand over a stretch of the source, and the opening braces among
them are in it. -/
theorem exists_stretch {source : List Char} {front others after : List Token} {first last : Token}
    (h : Piece.tokens 0 (pieces source) = front ++ (others ++ [last]) ++ after)
    (hfirst : (others ++ [last]).head? = some first) :
    ∃ text, Text.slice? first.span.start last.span.stop source = some text ∧
      ∀ t ∈ others ++ [last], t.kind = .openCurly → '\x7b' ∈ text := by
  rw [← List.append_assoc front, List.append_assoc, List.singleton_append] at h
  obtain ⟨qs, q, rs, hpieces, hqs, hq, _⟩ := Piece.exists_pieces_of_tokens h
  -- The pieces up to the last token fall into those before the first token and the others.
  have hread : Piece.tokens 0 (qs ++ [q]) = front ++ (others ++ [last]) := by
    have hq' : q.token? (0 + Text.width (qs.map Piece.text).flatten) = some last := hq
    rw [Piece.tokens_append, hqs, Piece.tokens, Piece.tokens, hq']
    simp
  obtain ⟨others', hothers⟩ := List.head?_eq_some_iff.1 hfirst
  rw [hothers] at hread ⊢
  obtain ⟨ps, p, mid, hsplit, hps, hp, hmid⟩ := Piece.exists_pieces_of_tokens hread
  have hall : pieces source = ps ++ (p :: mid) ++ rs := by
    rw [hpieces, ← hsplit, List.append_assoc, List.singleton_append]
  have hsource : (ps.map Piece.text).flatten ++ ((p :: mid).map Piece.text).flatten ++
      (rs.map Piece.text).flatten = source := by
    have hflat := flatten_pieces source
    rw [hall] at hflat
    rw [← hflat]
    simp
  have hstart : first.span.start = Text.width (ps.map Piece.text).flatten := by
    rw [Piece.span_token? hp, Piece.placeAfter, Nat.zero_add]
  have hstop : last.span.stop =
      Text.width ((ps.map Piece.text).flatten ++ ((p :: mid).map Piece.text).flatten) := by
    have hwidth := congrArg (fun ps => Text.width (ps.map Piece.text).flatten) hsplit
    rw [Piece.span_token? hq, Piece.placeAfter]
    simpa [Text.width_append] using hwidth
  refine ⟨((p :: mid).map Piece.text).flatten, ?_, ?_⟩
  · rw [hstart, hstop, ← hsource]
    exact Text.slice?_middle _ _ _
  · intro t ht hkind
    -- The brace comes from one of the pieces under the tokens.
    have hpiece : ∃ r ∈ p :: mid, ∃ start, r.token? start = some t := by
      rcases List.mem_cons.1 ht with rfl | ht
      · exact ⟨p, List.mem_cons_self, _, hp⟩
      · rw [← hmid] at ht
        obtain ⟨before, r, behind, hr, htoken⟩ := Piece.exists_of_mem_tokens ht
        exact ⟨r, by rw [hr]; simp, _, htoken⟩
    obtain ⟨r, hr, start, htoken⟩ := hpiece
    have hmem : r ∈ pieces source := by
      rw [hall]
      exact List.mem_append_left _ (List.mem_append_right _ hr)
    exact List.mem_flatten.2
      ⟨r.text, List.mem_map_of_mem hr, Piece.text_of_openCurly hmem htoken hkind⟩

end Sqf
