import Sqf.Proofs.Token.Lexeme

/-!
# Tokens between blanks

A text that is one token when it stands alone is the same token wherever a blank comes
behind it (`Scans.alone`), because no measure of the scanner goes on behind a blank. So any
tokens can be written one behind the other, each with a blank behind it
(`Scans.spaced`), and scanning gives them back.
-/

namespace Sqf

/-- The token that a text is if the piece at its front takes all of it. -/
def alone? : List Char → Option Lexeme
  | [] => none
  | c :: cs =>
    if (Piece.first false c cs).2 = cs.length then
      (Piece.first false c cs).1.lexeme? (c :: cs)
    else none

theorem isNamePart_of_isHexDigit {c : Char} (h : Text.isHexDigit c = true) :
    Piece.isNamePart c = true := by
  unfold Text.isHexDigit Text.hexValue? at h
  unfold Piece.isNamePart Char.isAlphanum Char.isAlpha Char.isUpper Char.isLower Char.isDigit
  simp only [Bool.or_eq_true, Bool.and_eq_true, decide_eq_true_eq]
  split at h
  · next hdigit =>
    simp only [Bool.and_eq_true, decide_eq_true_eq] at hdigit
    exact .inl (.inr hdigit)
  split at h
  · next hlower =>
    simp only [Bool.and_eq_true, decide_eq_true_eq] at hlower
    exact .inl (.inl (.inr ⟨hlower.1, Char.le_trans hlower.2 (by decide)⟩))
  split at h
  · next hupper =>
    simp only [Bool.and_eq_true, decide_eq_true_eq] at hupper
    exact .inl (.inl (.inl ⟨hupper.1, Char.le_trans hupper.2 (by decide)⟩))
  · cases h

theorem isNamePart_of_isDigit {c : Char} (h : c.isDigit = true) : Piece.isNamePart c = true := by
  simp [Piece.isNamePart, Char.isAlphanum, h]

/-- The forms of pieces that stay as they are if a blank or a semicolon follows. -/
def Form.isSettled : Form → Bool
  | plain _ | string _ | blockComment | unrecognised => true
  | _ => false

/-- A piece that is a token is settled. -/
theorem Form.isSettled_of_lexeme? {form : Form} {text : List Char} {l : Lexeme}
    (h : form.lexeme? text = some l) : form.isSettled = true := by
  cases form <;> first | rfl | cases h

namespace Piece

/-- No token but a string or comment goes on with a blank or a semicolon. -/
def endsToken (c : Char) : Bool := Text.isBlank c || c == ';'

theorem endsToken_of_isNamePart {c : Char} (h : isNamePart c = true) : endsToken c = false :=
  of_ascii (P := fun d => isNamePart d = true → endsToken d = false) (by decide)
    (ascii_of_isNamePart h) h

theorem endsToken_of_isAlpha (c : Char) (h : c.isAlpha = true) : endsToken c = false :=
  endsToken_of_isNamePart (by simp [isNamePart, Char.isAlphanum, h])

/-! ## Lengths -/

theorem run_le (p : Char → Bool) (cs : List Char) : run p cs ≤ cs.length :=
  (List.takeWhile_sublist p).length_le

theorem fractionLength_le (cs : List Char) : fractionLength cs ≤ cs.length := by
  unfold fractionLength
  split
  · next more =>
    split
    · exact Nat.zero_le _
    · exact Nat.succ_le_succ (run_le _ more)
  · exact Nat.zero_le _

/-- A comment that is closed stays as it is. -/
theorem commentLength?_append {cs : List Char} {n : Nat} (h : commentLength? cs = some n)
    (rest : List Char) : commentLength? (cs ++ rest) = some n := by
  fun_induction commentLength? cs generalizing n with
  | case1 => cases h
  | case2 => cases h
  | case3 c d cs hmark =>
    rw [List.cons_append, List.cons_append, commentLength?, if_pos hmark]
    exact h
  | case4 c d cs hmark ih =>
    obtain ⟨m, hm, rfl⟩ := Option.map_eq_some_iff.1 h
    rw [List.cons_append, List.cons_append, commentLength?, if_neg hmark]
    exact Option.map_eq_some_iff.2 ⟨m, ih hm, rfl⟩

/-! ## Measures in front of the end of a token -/

/-- Only the character behind the first one decides whether a symbol goes on. -/
theorem symbol?_cons (c d : Char) (ds : List Char) : symbol? c (d :: ds) = symbol? c [d] := by
  unfold symbol?
  split <;> simp_all

section Measures

variable {rest : List Char} (hrest : Follows endsToken rest)

include hrest

/-- A run of characters that names may have ends there. -/
theorem run_before {p : Char → Bool} (hp : ∀ c, p c = true → isNamePart c = true)
    (cs : List Char) : run p (cs ++ rest) = run p cs := by
  induction cs with
  | nil =>
    refine run_append rfl (hrest.mono fun c hc => ?_)
    rw [Bool.not_eq_true', Bool.eq_false_iff]
    intro hpc
    rw [endsToken_of_isNamePart (hp c hpc)] at hc
    cases hc
  | cons c cs ih =>
    unfold run at ih ⊢
    rw [List.cons_append, List.takeWhile_cons, List.takeWhile_cons]
    split
    · rw [List.length_cons, List.length_cons, ih]
    · rfl

theorem run_isDigit_before (cs : List Char) : run Char.isDigit (cs ++ rest) = run Char.isDigit cs :=
  run_before hrest (fun _ => isNamePart_of_isDigit) cs

theorem run_isHexDigit_before (cs : List Char) :
    run Text.isHexDigit (cs ++ rest) = run Text.isHexDigit cs :=
  run_before hrest (fun _ => isNamePart_of_isHexDigit) cs

/-- An exponent does not go on behind a blank or a semicolon. -/
theorem exponentLength_before (cs : List Char) :
    exponentLength (cs ++ rest) = exponentLength cs := by
  -- The mark and a sign behind it may be the last characters.
  match cs with
  | [] =>
    cases rest with
    | nil => rfl
    | cons b rest =>
      have hmark : b ≠ 'e' ∧ b ≠ 'E' := by
        constructor <;> (rintro rfl; cases follows_cons.1 hrest)
      simp [exponentLength, hmark]
  | [c] =>
    cases rest with
    | nil => rfl
    | cons b rest =>
      have hsign : b ≠ '+' ∧ b ≠ '-' := by
        constructor <;> (rintro rfl; cases follows_cons.1 hrest)
      have hdigits : run Char.isDigit (b :: rest) = 0 := run_isDigit_before hrest []
      simp [exponentLength, hsign, hdigits]
  | c :: d :: ds =>
    have hmore := run_isDigit_before hrest ds
    have hdigits : run Char.isDigit (d :: (ds ++ rest)) = run Char.isDigit (d :: ds) :=
      run_isDigit_before hrest (d :: ds)
    simp only [List.cons_append, exponentLength, hmore, hdigits]

/-- Nor does a fraction. -/
theorem fractionLength_before (cs : List Char) :
    fractionLength (cs ++ rest) = fractionLength cs := by
  cases cs with
  | nil =>
    rw [List.nil_append]
    unfold fractionLength
    split
    · cases follows_cons.1 hrest
    · rfl
  | cons c cs =>
    by_cases hc : c = '.'
    · subst hc
      simp only [List.cons_append, fractionLength, run_isDigit_before hrest cs]
    · simp [fractionLength, hc]

/-- Nor does a decimal number. -/
theorem decimalLength_before (cs : List Char) :
    decimalLength (cs ++ rest) = decimalLength cs := by
  have hwhole := run_le Char.isDigit cs
  have hdrop : (cs ++ rest).drop (run Char.isDigit cs) = cs.drop (run Char.isDigit cs) ++ rest :=
    List.drop_append_of_le_length hwhole
  have hfraction := fractionLength_le (cs.drop (run Char.isDigit cs))
  rw [List.length_drop] at hfraction
  have hdrop' : (cs ++ rest).drop
      (run Char.isDigit cs + fractionLength (cs.drop (run Char.isDigit cs))) =
        cs.drop (run Char.isDigit cs + fractionLength (cs.drop (run Char.isDigit cs))) ++ rest :=
    List.drop_append_of_le_length (by omega)
  unfold decimalLength
  simp only [run_isDigit_before hrest, hdrop, fractionLength_before hrest, hdrop',
    exponentLength_before hrest]

/-- Nor does a hexadecimal one. -/
theorem hexLength_before (c : Char) (cs : List Char) :
    hexLength (c :: (cs ++ rest)) = hexLength (c :: cs) := by
  -- A hexadecimal number starts with a dollar or with a zero and a mark.
  by_cases hdollar : c = '$'
  · subst hdollar
    simp only [hexLength, run_isHexDigit_before hrest cs]
  by_cases hzero : c = '0'
  · subst hzero
    cases cs with
    | nil =>
      cases rest with
      | nil => rfl
      | cons b rest =>
        have hmark : b ≠ 'x' ∧ b ≠ 'X' := by
          constructor <;> (rintro rfl; cases follows_cons.1 hrest)
        simp [hexLength, hmark]
    | cons d ds => simp only [List.cons_append, hexLength, run_isHexDigit_before hrest ds]
  · have hnone (more : List Char) : hexLength (c :: more) = 0 := by
      unfold hexLength
      split
      · next heq => exact absurd (List.cons.inj heq).1 hzero
      · next heq => exact absurd (List.cons.inj heq).1 hdollar
      · rfl
    rw [hnone, hnone]

/-- A string that is closed stays as it is, unless its last quote is doubled. -/
theorem stringBody_before {quote : Char} (hquote : endsToken quote = false) {cs : List Char}
    (hclosed : (stringBody quote cs).2.2 = true) :
    stringBody quote (cs ++ rest) = stringBody quote cs := by
  fun_induction stringBody quote cs with
  | case1 => cases hclosed
  | case2 ds value n closed hbody ih =>
    rw [hbody] at ih
    simp [stringBody, ih hclosed]
  | case3 d ds hd => simp [stringBody, hd]
  -- The last quote could be doubled by one behind it.
  | case4 =>
    cases rest with
    | nil => simp [stringBody]
    | cons b rest =>
      have hb : b ≠ quote := by
        rintro rfl
        rw [follows_cons.1 hrest] at hquote
        cases hquote
      simp [stringBody, hb]
  | case5 c cs hc value n closed hbody ih =>
    rw [hbody] at ih
    rw [List.cons_append, stringBody.eq_def]
    simp [hc, ih hclosed]

/-- Nor does a symbol of two characters. -/
theorem symbol?_before (c : Char) (cs : List Char) : symbol? c (cs ++ rest) = symbol? c cs := by
  match cs, rest with
  | d :: ds, rest => rw [List.cons_append, symbol?_cons, symbol?_cons c d ds]
  | [], [] => rfl
  | [], b :: rest =>
    have hother : ∀ d, endsToken d = false → b ≠ d := by
      rintro d hd rfl
      rw [follows_cons.1 hrest] at hd
      cases hd
    have hsecond := And.intro (hother '=' rfl) (And.intro (hother '>' rfl)
      (And.intro (hother '|' rfl) (hother '&' rfl)))
    rw [List.nil_append, symbol?_cons]
    unfold symbol?
    split <;> simp_all

/-- The first token is the same with its end behind it, if it is no string without its closing
quote. -/
theorem firstToken_before {c : Char} {cs : List Char}
    (h : (firstToken c cs).1.isSettled = true) : firstToken c (cs ++ rest) = firstToken c cs := by
  have hnumber : decimalLength (c :: (cs ++ rest)) = decimalLength (c :: cs) :=
    decimalLength_before hrest (c :: cs)
  have hname : run isNamePart (cs ++ rest) = run isNamePart cs :=
    run_before hrest (fun _ => id) cs
  have htake : (cs ++ rest).take (run isNamePart cs) = cs.take (run isNamePart cs) :=
    List.take_append_of_le_length (run_le _ cs)
  unfold firstToken at h ⊢
  simp only [hexLength_before hrest, hnumber, hname, htake, symbol?_before hrest] at h ⊢
  generalize (if hexLength (c :: cs) = 0 then decimalLength (c :: cs)
    else hexLength (c :: cs)) = number at h ⊢
  split
  · rfl
  split
  · rfl
  split
  · next hzero hletter hquote =>
    -- A quote that opens a string is neither a blank nor a semicolon.
    have hends : endsToken c = false := by
      simp only [Bool.or_eq_true, decide_eq_true_eq] at hquote
      rcases hquote with rfl | rfl <;> rfl
    have hclosed : (stringBody c cs).2.2 = true := by
      rw [if_neg hzero, if_neg hletter, if_pos hquote] at h
      generalize stringBody c cs = body at h
      rcases body with ⟨value, n, closed⟩
      cases closed with
      | false => cases h
      | true => rfl
    rw [stringBody_before hrest hends hclosed]
  · rfl

/-- What ends a token is not what the character behind a sign is looked at for. -/
theorem any_head?_before {p : Char → Bool} (hp : ∀ d, p d = true → endsToken d = false)
    (cs : List Char) : (cs ++ rest).head?.any p = cs.head?.any p := by
  cases cs with
  | cons => rfl
  | nil =>
    cases rest with
    | nil => rfl
    | cons b rest =>
      rw [List.nil_append, List.head?_cons, List.head?_nil, Option.any_some, Option.any_none,
        Bool.eq_false_iff]
      intro hb
      have hends := hp b hb
      rw [follows_cons.1 hrest] at hends
      cases hends

theorem head?_before {d : Char} (hd : endsToken d = false) (cs : List Char) :
    (cs ++ rest).head? = some d ↔ cs.head? = some d := by
  have hany := any_head?_before hrest (p := (· == d)) (fun e he => by rwa [beq_iff_eq.1 he]) cs
  have hone (o : Option Char) : o.any (· == d) = true ↔ o = some d := by cases o <;> simp
  rw [← hone, ← hone, hany]

/-- The first piece is the same with the end of a token behind it, if its form is settled. -/
theorem first_before {fresh : Bool} {c : Char} {cs : List Char}
    (h : (first fresh c cs).1.isSettled = true) :
    first fresh c (cs ++ rest) = first fresh c cs := by
  have hletter : (cs ++ rest).head?.any Char.isAlpha = cs.head?.any Char.isAlpha :=
    any_head?_before hrest endsToken_of_isAlpha cs
  -- The tests of the scanner are gone through in their order; comments and blanks are not settled.
  unfold first at h ⊢
  simp only [head?_before hrest (d := '/') rfl, head?_before hrest (d := '*') rfl, hletter]
  split
  · next hblank =>
    rw [if_pos hblank] at h
    cases h
  next hblank =>
  rw [if_neg hblank] at h
  split
  · next hline =>
    rw [if_pos hline] at h
    cases h
  next hline =>
  rw [if_neg hline] at h
  split
  · next hblock =>
    rw [if_pos hblock] at h
    cases cs with
    | nil => simp at hblock
    | cons d cs =>
      rw [List.cons_append, List.tail_cons, List.tail_cons] at *
      cases hlength : commentLength? cs with
      | none => rw [hlength] at h; cases h
      | some n => rw [commentLength?_append hlength]
  next hblock =>
  rw [if_neg hblock] at h
  split
  · next hhash =>
    rw [if_pos hhash] at h
    split
    · next hdirective =>
      rw [if_pos hdirective] at h
      cases h
    · rfl
  · next hhash =>
    rw [if_neg hhash] at h
    exact firstToken_before hrest h

end Measures

/-- A text that is one piece is the same piece wherever it stands in its line: a sign by itself
begins no directive. -/
theorem first_of_whole {c : Char} {cs : List Char} (h : (first false c cs).2 = cs.length)
    (fresh : Bool) : first fresh c cs = first false c cs := by
  unfold first at h ⊢
  split
  · rfl
  next hblank =>
  rw [if_neg hblank] at h
  split
  · rfl
  next hline =>
  rw [if_neg hline] at h
  split
  · rfl
  next hblock =>
  rw [if_neg hblock] at h
  split
  · next hhash =>
    rw [if_pos hhash] at h
    obtain rfl : cs = [] := List.length_eq_zero_iff.1 h.symm
    simp
  · rfl

end Piece

/-- A token by itself is the same token before a blank. -/
theorem Scans.alone {text : List Char} {l : Lexeme} (h : alone? text = some l) :
    Scans Text.isBlank text [l] := by
  cases text with
  | nil => cases h
  | cons c cs =>
    rw [alone?] at h
    split at h
    · next hlength =>
      refine Scans.of_first (Piece.first false c cs).1 h fun fresh rest hrest => ?_
      have hfresh := Piece.first_of_whole hlength fresh
      have hsettled := Form.isSettled_of_lexeme? h
      rw [← hfresh] at hsettled
      have hends : Follows Piece.endsToken rest :=
        hrest.mono fun c hc => by rw [Piece.endsToken, hc, Bool.true_or]
      rw [Piece.first_before hends hsettled, hfresh, ← hlength]
    · cases h

/-- Texts with a blank behind each. -/
def spaced (texts : List (List Char)) : List Char := texts.flatMap (· ++ [' '])

/-- Tokens are scanned one after the other if there are blanks between them. -/
theorem Scans.spaced {texts : List (List Char)} {ls : List Lexeme}
    (h : texts.map alone? = ls.map some) : Scans anything (spaced texts) ls := by
  induction texts generalizing ls with
  | nil =>
    rw [List.map_nil, eq_comm, List.map_eq_nil_iff] at h
    rw [h]
    exact Scans.nil
  | cons text texts ih =>
    obtain ⟨l, ls, rfl, hl, hls⟩ := List.map_eq_cons_iff.1 h.symm
    have hblank : Scans anything [' '] [] := Scans.blank Text.isBlank_space
    exact ((Scans.alone hl.symm).append_cons hblank Text.isBlank_space).before (ih hls.symm)

end Sqf
