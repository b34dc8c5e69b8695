import Sqf.Proofs.Token.Alone
import Sqf.Proofs.Token.Tiling

/-!
# Scanning what was scanned

Tokens that are written down again with blanks between them are scanned to the same tokens
(`rescan`). For that the text of every piece is looked at by itself: a numeral, a name or a
symbol that was taken off the front of a longer text is one in its own right. Strings are written
anew, so that one without its closing quote gets it.
-/

namespace Sqf

open Text (isBlank doubled take_run)

/-! ## Numerals by themselves -/

/-- A run is of characters that pass the test. -/
theorem all_take_run (p : Char → Bool) (cs : List Char) :
    (cs.take (Piece.run p cs)).all p = true := by
  rw [take_run]
  exact List.all_takeWhile

theorem length_take_run (p : Char → Bool) (cs : List Char) :
    (cs.take (Piece.run p cs)).length = Piece.run p cs := by
  rw [take_run, Piece.run]

/-- A run that is not empty has some. -/
theorem take_run_ne_nil {p : Char → Bool} {cs : List Char} (h : Piece.run p cs ≠ 0) :
    cs.take (Piece.run p cs) ≠ [] := by
  intro hnil
  rw [← length_take_run, hnil] at h
  exact h rfl

/-- A fraction that is measured is one. -/
theorem isFraction_take (cs : List Char) : IsFraction (cs.take (Piece.fractionLength cs)) := by
  unfold Piece.fractionLength
  split
  · next ds =>
    split
    · exact .none
    · next hdigits => exact .digits (take_run_ne_nil hdigits) (all_take_run _ ds)
  · exact .none

/-- An exponent that is measured is one. -/
theorem isExponent_take (cs : List Char) : IsExponent (cs.take (Piece.exponentLength cs)) := by
  -- The mark may be the last character, or be followed by a sign or a digit.
  match cs with
  | [] => exact .none
  | [mark] => simpa [Piece.exponentLength] using IsExponent.none
  | mark :: d :: ds =>
    rw [Piece.exponentLength]
    split
    · next hmark =>
      replace hmark : mark = 'e' ∨ mark = 'E' := by simpa using hmark
      split
      · next hsign =>
        split
        · exact .none
        · next hdigits =>
          have hd : [d] ∈ [[], ['+'], ['-']] := by simpa using hsign
          exact .digits hmark hd (take_run_ne_nil hdigits) (all_take_run _ ds)
      · split
        · exact .none
        · next hdigits =>
          have hnone : ([] : List Char) ∈ [[], ['+'], ['-']] := by simp
          exact .digits hmark hnone (take_run_ne_nil hdigits) (all_take_run _ (d :: ds))
    · exact .none

/-- A decimal numeral that is measured is one. -/
theorem isDecimal_take {cs : List Char} (h : Piece.decimalLength cs ≠ 0) :
    IsDecimal (cs.take (Piece.decimalLength cs)) := by
  unfold Piece.decimalLength at h ⊢
  simp only at h ⊢
  split at h
  · exact absurd rfl h
  next hsum =>
  rw [if_neg hsum, List.take_add, List.take_add, List.append_assoc]
  refine ⟨_, _, _, rfl, all_take_run _ cs, isFraction_take _, isExponent_take _, ?_⟩
  rw [← List.take_add]
  intro hnil
  rcases List.take_eq_nil_iff.1 hnil with hzero | rfl
  · exact hsum hzero
  · exact hsum rfl

/-- The same of a hexadecimal numeral, which has a mark of its own. -/
theorem hexLength_take {c : Char} {rest : List Char} {n : Nat}
    (h : Piece.hexLength (c :: rest) = n + 1) :
    (c = '0' ∨ c = '$') ∧ (rest.take n).length = n ∧
      Piece.hexLength (c :: rest.take n) = n + 1 := by
  unfold Piece.hexLength at h
  split at h
  · next x cs heq =>
    obtain ⟨rfl, rfl⟩ := List.cons.inj heq
    split at h
    · next hx =>
      obtain rfl : n = Piece.run Text.isHexDigit cs + 1 := by omega
      -- The digits that were measured are measured again where they stand alone.
      have hrun := run_append (all_take_run Text.isHexDigit cs) (follows_nil _)
      rw [List.append_nil, length_take_run] at hrun
      refine ⟨.inl rfl, by rw [List.take_succ_cons, List.length_cons, length_take_run], ?_⟩
      rw [List.take_succ_cons, Piece.hexLength, hrun, if_pos hx]
    · cases h
  · next cs heq =>
    obtain ⟨rfl, rfl⟩ := List.cons.inj heq
    split at h
    · cases h
    · next hdigits =>
      obtain rfl : n = Piece.run Text.isHexDigit rest := by omega
      have hrun := run_append (all_take_run Text.isHexDigit rest) (follows_nil _)
      rw [List.append_nil, length_take_run] at hrun
      refine ⟨.inr rfl, length_take_run _ _, ?_⟩
      rw [Piece.hexLength, hrun, if_neg hdigits]
  · cases h

/-! ## Symbols by themselves -/

/-- A symbol that was scanned is one in its own right. -/
theorem alone?_symbol {c : Char} {rest : List Char} {kind : Kind} {n : Nat}
    (h : Piece.symbol? c rest = some (kind, n)) :
    alone? (c :: rest.take n) = some ⟨kind, .ofList (c :: rest.take n)⟩ := by
  unfold Piece.symbol? at h
  split at h <;> cases h <;> rfl

/-! ## Pieces by themselves -/

theorem endsName_of_isBlank {c : Char} (h : isBlank c = true) : endsName c = true := by
  rw [endsName, Bool.not_eq_true', Bool.eq_false_iff]
  intro hname
  rw [isBlank_of_isNamePart hname] at h
  cases h

theorem endsNumber_of_isBlank {c : Char} (h : isBlank c = true) : endsNumber c = true := by
  have hpoint : c ≠ '.' := by rintro rfl; cases h
  have hname : (!Piece.isNamePart c) = true := endsName_of_isBlank h
  rw [endsNumber, hname, Bool.true_and, bne_iff_ne]
  exact hpoint

/-- So is a hexadecimal number. -/
theorem alone?_hex {c : Char} {rest : List Char} {n : Nat}
    (h : Piece.hexLength (c :: rest) = n + 1) :
    alone? (c :: rest.take n) = some ⟨.number, .ofList (c :: rest.take n)⟩ := by
  obtain ⟨hc, htaken, hlength⟩ := hexLength_take h
  have hfirst : Piece.first false c (rest.take n) = (.plain .number, n) := by
    rcases hc with rfl | rfl <;> simp [Piece.first, Piece.firstToken, hlength, isBlank]
  rw [alone?, hfirst, if_pos htaken.symm]
  rfl

/-- What starts with `c` and has its own text for value, by its kind and by how many characters of
`rest` belong to it. -/
inductive PlainToken (c : Char) (rest : List Char) : Kind → Nat → Prop
  | hex {n : Nat} (h : Piece.hexLength (c :: rest) = n + 1) : PlainToken c rest .number n
  | decimal {n : Nat} (h : Piece.decimalLength (c :: rest) = n + 1) : PlainToken c rest .number n
  | name (h : Piece.isNameStart c = true) :
    PlainToken c rest (.ofWord (.ofList (c :: rest.take (Piece.run Piece.isNamePart rest))))
      (Piece.run Piece.isNamePart rest)
  | symbol {kind : Kind} {n : Nat} (h : Piece.symbol? c rest = some (kind, n)) :
    PlainToken c rest kind n
  | hash (h : c = '#') : PlainToken c rest .hash 0

/-- A token that is no string is a number, a name or a symbol. -/
theorem plainToken_of_firstToken {c : Char} {rest : List Char} {kind : Kind} {n : Nat}
    (h : Piece.firstToken c rest = (.plain kind, n)) : PlainToken c rest kind n := by
  unfold Piece.firstToken at h
  simp only at h
  -- The scanner looks for hexadecimal numbers first.
  by_cases hhex : Piece.hexLength (c :: rest) = 0
  · rw [if_pos hhex] at h
    split at h
    · next hdecimal =>
      cases h
      exact .decimal (Nat.succ_pred hdecimal).symm
    split at h
    · next hletter =>
      cases h
      exact .name hletter
    split at h
    · split at h <;> cases h
    split at h
    · next hsymbol =>
      cases h
      exact .symbol hsymbol
    · cases h
  · rw [if_neg hhex, if_pos hhex] at h
    cases h
    exact .hex (Nat.succ_pred hhex).symm

theorem plainToken_of_first {fresh : Bool} {c : Char} {rest : List Char} {kind : Kind} {n : Nat}
    (h : Piece.first fresh c rest = (.plain kind, n)) : PlainToken c rest kind n := by
  unfold Piece.first at h
  split at h
  · cases h
  split at h
  · cases h
  split at h
  · split at h <;> cases h
  split at h
  · next hhash =>
    split at h
    · cases h
    · cases h
      exact .hash hhash
  · exact plainToken_of_firstToken h

/-- The token is one in its own right. -/
theorem PlainToken.scans {c : Char} {rest : List Char} {kind : Kind} {n : Nat}
    (h : PlainToken c rest kind n) :
    Scans isBlank (c :: rest.take n) [⟨kind, .ofList (c :: rest.take n)⟩] := by
  cases h with
  | hex h => exact Scans.alone (alone?_hex h)
  | decimal h =>
    have hne : Piece.decimalLength (c :: rest) ≠ 0 := by omega
    have hnumber := Scans.number (isDecimal_take hne)
    rw [h, List.take_succ_cons] at hnumber
    exact hnumber.mono fun _ => endsNumber_of_isBlank
  | name h =>
    have hparts := all_take_run Piece.isNamePart rest
    have hname : IsName (c :: rest.take (Piece.run Piece.isNamePart rest)) :=
      ⟨h, by rw [List.all_cons, isNamePart_of_isNameStart h, hparts]; rfl⟩
    exact (Scans.name hname).mono fun _ => endsName_of_isBlank
  | symbol h => exact Scans.alone (alone?_symbol h)
  | hash h =>
    subst h
    exact Scans.alone rfl

/-! ## Tokens written down -/

/-- How a token is written: a string between double quotes, with those in it doubled, and any other
token as it is. -/
def Token.written (t : Token) : List Char :=
  if t.kind = .string then '"' :: (doubled '"' t.value.toList ++ ['"']) else t.value.toList

/-- A token of a text is scanned again where a blank follows. -/
theorem Scans.written {source : String} {t : Token}
    (h : t ∈ Piece.tokens 0 (pieces source.toList)) : Scans isBlank t.written [t.lexeme] := by
  obtain ⟨front, p, back, hpieces, htoken⟩ := Piece.exists_of_mem_tokens h
  -- Strings are written anew, so the shape of their piece does not matter.
  have hstring : ∀ value, t.kind = .string → t.value = .ofList value →
      Scans isBlank t.written [t.lexeme] := by
    intro value hkind hvalue
    have hquotes : ∀ d, isBlank d = true → (d != '"') = true := by
      intro d hd
      rw [bne_iff_ne]
      rintro rfl
      cases hd
    rw [Token.written, if_pos hkind, Token.lexeme, hkind, hvalue, String.toList_ofList]
    exact (Scans.string value).mono hquotes
  have hshape := Piece.shape_of_cut hpieces
  unfold Piece.token? at htoken
  split at htoken
  · next kind hkind =>
    cases htoken
    rw [hkind] at hshape
    obtain ⟨c, rest, hform, htext, _⟩ := Piece.first_of_cut hpieces
    rw [hkind] at hform
    rw [Token.written, if_neg hshape.1, Token.lexeme, String.toList_ofList, ← htext]
    exact (plainToken_of_first (Prod.ext hform rfl)).scans
  · next value _ =>
    cases htoken
    exact hstring value rfl rfl
  · next value _ =>
    cases htoken
    exact hstring value rfl rfl
  · cases htoken

/-- Texts that are scanned in front of a blank are scanned with a blank between each two. -/
theorem Scans.separated {α : Type} {text : α → List Char} {lexeme : α → Lexeme} {xs : List α}
    (h : ∀ x ∈ xs, Scans isBlank (text x) [lexeme x]) :
    Scans isBlank ([' '].intercalate (xs.map text)) (xs.map lexeme) := by
  induction xs with
  | nil => exact Scans.nil
  | cons x xs ih =>
    obtain ⟨hx, hxs⟩ := List.forall_mem_cons.1 h
    cases xs with
    | nil => simpa using hx
    | cons y ys =>
      have hspace : Scans isBlank (' ' :: [' '].intercalate ((y :: ys).map text))
          ((y :: ys).map lexeme) := (Scans.blank Text.isBlank_space).before (ih hxs)
      simpa [List.intercalate_cons_cons] using hx.append_cons hspace Text.isBlank_space

/-- What is written of the tokens of a text, with a blank between each two. -/
def rewritten (source : String) : String :=
  .ofList ([' '].intercalate
    (((scan source).tokens.filter (·.kind ≠ .endOfInput)).map Token.written))

/-- Comments are gone, and the open string is closed with quotes of the other kind. -/
example : rewritten "a/**/>='b\"c" = "a >= \"b\"\"c\"" := by decide +kernel

/-- Scanning what was scanned gives the same tokens, and there is nothing to report any more. -/
theorem rescan (source : String) :
    (scan (rewritten source)).tokens.map Token.lexeme =
        (scan source).tokens.map Token.lexeme ∧
      (scan (rewritten source)).diagnostics = [] := by
  have hscans : Scans isBlank
      ([' '].intercalate ((Piece.tokens 0 (pieces source.toList)).map Token.written))
      ((Piece.tokens 0 (pieces source.toList)).map Token.lexeme) :=
    Scans.separated fun t ht => Scans.written ht
  obtain ⟨ts, htokens, hts, hdiagnostics⟩ := hscans.scan_eq
  rw [rewritten, filter_tokens_scan]
  refine ⟨?_, hdiagnostics⟩
  rw [htokens, tokens_scan, List.map_append, List.map_append, hts]
  rfl

end Sqf
