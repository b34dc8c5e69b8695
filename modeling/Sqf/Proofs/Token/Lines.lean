import Mathlib.Data.List.DropRight
import Sqf.Proofs.Token.Alone
import Sqf.Proofs.Token.Tiling

/-!
# Scanning line by line

A text and lines behind it are scanned to what the text and the lines are scanned to by
themselves (`scan_lines`). Where the newline joins them, the pieces need not be the same: blanks
go together, and a directive that ends the text takes the newline. So not pieces are compared but
what is read and reported (`PartsAt`), piece by piece from the front. A blank is taken away
alone; every other piece stays as it is in front of a newline, with that directive as the
exception (`Piece.first_newline`).
-/

namespace Sqf

namespace Text

/-! ## Last lines -/

/-- What stands behind the last newline. -/
def lastLine (cs : List Char) : List Char := cs.rtakeWhile (· ≠ '\n')

/-- The last line is followed through a text from its front. -/
theorem lastLine_concat (cs : List Char) (c : Char) :
    lastLine (cs ++ [c]) = if c = '\n' then [] else lastLine cs ++ [c] := by
  simp [lastLine, List.rtakeWhile_concat]

theorem lastLine_of_not_mem {cs : List Char} (h : '\n' ∉ cs) : lastLine cs = cs := by
  refine List.rtakeWhile_eq_self_iff.2 fun c hc => ?_
  exact decide_eq_true (ne_of_mem_of_not_mem hc h)

/-- What is in front of a newline is not in the last line. -/
theorem lastLine_append_newline (xs ys : List Char) :
    lastLine (xs ++ '\n' :: ys) = lastLine ys := by
  induction ys using List.reverseRecOn with
  | nil => exact lastLine_concat xs '\n'
  | append_singleton ys d ih =>
    rw [← List.cons_append, ← List.append_assoc, lastLine_concat, lastLine_concat, ih]

/-- The last line of a text ends with the last line of what is at its end. -/
theorem lastLine_append (xs ys : List Char) : ∃ zs, lastLine (xs ++ ys) = zs ++ lastLine ys := by
  induction ys using List.reverseRecOn with
  | nil => exact ⟨lastLine xs, by simp [lastLine]⟩
  | append_singleton ys d ih =>
    obtain ⟨zs, hzs⟩ := ih
    rw [← List.append_assoc, lastLine_concat, lastLine_concat, hzs]
    split
    · exact ⟨[], rfl⟩
    · exact ⟨zs, List.append_assoc _ _ _⟩

/-- Only the end of a text is trimmed. -/
theorem trimRight_append {ys : List Char} (h : trimRight ys ≠ []) (xs : List Char) :
    trimRight (xs ++ ys) = xs ++ trimRight ys := by
  induction xs with
  | nil => rfl
  | cons x xs ih =>
    have hne : xs ++ trimRight ys ≠ [] := by simp [h]
    obtain ⟨d, ds, hds⟩ := List.exists_cons_of_ne_nil hne
    rw [List.cons_append, trimRight, ih, hds, List.cons_append, hds]

/-- A text goes on if its end does. -/
theorem Continues.append {ys : List Char} (h : Continues ys) (xs : List Char) :
    Continues (xs ++ ys) := by
  have hne : trimRight ys ≠ [] := by
    intro hnil
    rw [Continues, hnil] at h
    cases h
  rw [Continues, trimRight_append hne, List.getLast?_append, h]
  rfl

end Text

/-- The forms of pieces that want a closing mark. -/
def Form.isOpen : Form → Bool
  | openComment | openString _ => true
  | _ => false

namespace Piece

open Text (isBlank)

/-! ## A piece is within the text -/

theorem exponentLength_le (cs : List Char) : exponentLength cs ≤ cs.length := by
  match cs with
  | [] => exact Nat.zero_le _
  | [c] => simp [exponentLength]
  | c :: d :: ds =>
    have hsigned := run_le Char.isDigit ds
    have hplain := run_le Char.isDigit (d :: ds)
    simp only [exponentLength, List.length_cons] at hplain ⊢
    repeat' split
    all_goals omega

theorem decimalLength_le (cs : List Char) : decimalLength cs ≤ cs.length := by
  have hwhole := run_le Char.isDigit cs
  have hfraction := fractionLength_le (cs.drop (run Char.isDigit cs))
  have hexponent := exponentLength_le
    (cs.drop (run Char.isDigit cs + fractionLength (cs.drop (run Char.isDigit cs))))
  rw [List.length_drop] at hfraction hexponent
  simp only [decimalLength]
  split <;> omega

theorem hexLength_le (cs : List Char) : hexLength cs ≤ cs.length := by
  unfold hexLength
  split
  · next x ds =>
    have hdigits := run_le Text.isHexDigit ds
    split <;> simp only [List.length_cons] <;> omega
  · next ds =>
    have hdigits := run_le Text.isHexDigit ds
    split <;> simp only [List.length_cons] <;> omega
  · exact Nat.zero_le _

theorem stringBody_le (quote : Char) (cs : List Char) :
    (stringBody quote cs).2.1 ≤ cs.length := by
  fun_induction stringBody quote cs <;> simp_all

theorem symbol?_le {c : Char} {rest : List Char} {kind : Kind} {n : Nat}
    (h : symbol? c rest = some (kind, n)) : n ≤ rest.length := by
  unfold symbol? at h
  split at h <;> cases h <;> simp

theorem commentLength?_le {cs : List Char} {n : Nat} (h : commentLength? cs = some n) :
    n ≤ cs.length := by
  fun_induction commentLength? cs generalizing n with
  | case1 => cases h
  | case2 => cases h
  | case3 => cases h; simp
  | case4 c d cs _ ih =>
    obtain ⟨m, hm, rfl⟩ := Option.map_eq_some_iff.1 h
    exact Nat.succ_le_succ (ih hm)

theorem directiveLength_le (line cs : List Char) : directiveLength line cs ≤ cs.length := by
  fun_induction directiveLength line cs <;> simp_all

/-- No token is longer than what is left of the text. -/
theorem firstToken_le (c : Char) (rest : List Char) : (firstToken c rest).2 ≤ rest.length := by
  have hhex := hexLength_le (c :: rest)
  have hdecimal := decimalLength_le (c :: rest)
  -- The length of a number counts its first digit too.
  have hnumber : (if hexLength (c :: rest) = 0 then decimalLength (c :: rest)
      else hexLength (c :: rest)) ≤ rest.length + 1 := by
    split <;> assumption
  unfold firstToken
  simp only
  generalize (if hexLength (c :: rest) = 0 then decimalLength (c :: rest)
    else hexLength (c :: rest)) = number at hnumber ⊢
  split
  · exact Nat.sub_le_of_le_add hnumber
  split
  · exact run_le _ rest
  split
  · have hbody := stringBody_le c rest
    split
    · next heq => rwa [heq] at hbody
    · next heq => rwa [heq] at hbody
  · split
    · next hsymbol => exact symbol?_le hsymbol
    · exact Nat.zero_le _

/-- No piece is. -/
theorem first_le (fresh : Bool) (c : Char) (rest : List Char) :
    (first fresh c rest).2 ≤ rest.length := by
  unfold first
  split
  · exact run_le _ rest
  split
  · exact run_le _ rest
  split
  · next hblock =>
    split
    · next n hlength =>
      have hle := commentLength?_le hlength
      cases rest with
      | nil => simp at hblock
      | cons d rest => exact Nat.succ_le_succ hle
    · exact Nat.le_refl _
  split
  · split
    · exact directiveLength_le _ rest
    · exact Nat.zero_le _
  · exact firstToken_le c rest

/-! ## Pieces in front of a newline -/

/-- A directive ends at the same place if a line is put behind the text, or it goes up to the end
and takes the newline as well. The characters of the current line that were read before are in
`line`, last one first. -/
theorem directiveLength_newline {line cs : List Char} (hline : '\n' ∉ line)
    (h : ¬ Text.Continues (Text.lastLine (line.reverse ++ cs))) (more : List Char) :
    directiveLength line (cs ++ '\n' :: more) = directiveLength line cs ∨
      directiveLength line cs = cs.length ∧
        directiveLength line (cs ++ '\n' :: more) = cs.length + 1 := by
  have hreverse : '\n' ∉ line.reverse := by simpa using hline
  fun_induction directiveLength line cs with
  | case1 line =>
    have hends : continues line.reverse = false := by
      rw [List.append_nil, Text.lastLine_of_not_mem hreverse] at h
      simpa [continues, Text.Continues] using h
    exact .inr ⟨rfl, by simp [directiveLength, hends]⟩
  | case2 line cs hmore ih =>
    rw [Text.lastLine_append_newline] at h
    rw [Bool.and_eq_true] at hmore
    have hlength : directiveLength line ('\n' :: (cs ++ '\n' :: more)) =
        directiveLength [] (cs ++ '\n' :: more) + 1 := by
      simp [directiveLength, hmore.1]
    rw [List.cons_append, hlength, List.length_cons]
    simpa using ih (by simp) h (by simp)
  | case3 line cs hlast =>
    rw [List.cons_append, List.length_cons]
    cases hends : continues line.reverse with
    | false => exact .inl (by simp [directiveLength, hends])
    | true =>
      -- The text ends with this newline, so the empty line behind it is the last one.
      have hnil : cs = [] := by simpa [hends] using hlast
      subst hnil
      have hnext : directiveLength [] ('\n' :: more) = 1 := by
        simp [directiveLength, continues, Text.trimRight]
      exact .inr ⟨rfl, by simp [directiveLength, hends, hnext]⟩
  | case4 line c cs hc ih =>
    have hmem : '\n' ∉ c :: line := by simp [hline, Ne.symm hc]
    have hlength : directiveLength line (c :: (cs ++ '\n' :: more)) =
        directiveLength (c :: line) (cs ++ '\n' :: more) + 1 := by
      rw [directiveLength, if_neg hc]
    rw [List.cons_append, hlength, List.length_cons]
    simpa using ih hmem (by simpa using h) (by rwa [List.mem_reverse])

/-- A run up to a newline does not see what is behind it. -/
theorem run_newline (cs more : List Char) :
    run (· ≠ '\n') (cs ++ '\n' :: more) = run (· ≠ '\n') cs := by
  induction cs with
  | nil => simp [run]
  | cons c cs ih =>
    unfold run at ih ⊢
    rw [List.cons_append, List.takeWhile_cons, List.takeWhile_cons]
    split
    · rw [List.length_cons, List.length_cons, ih]
    · rfl

/-- Only a string without its closing quote could go on. -/
theorem firstToken_form (c : Char) (rest : List Char) :
    ∃ form n, firstToken c rest = (form, n) ∧ (form.isSettled = true ∨ form.isOpen = true) := by
  unfold firstToken
  simp only
  repeat' split
  all_goals first | exact ⟨_, _, rfl, .inl rfl⟩ | exact ⟨_, _, rfl, .inr rfl⟩

/-- The first piece is the same if a line is put behind the text, or it is a directive that takes
the newline as well. -/
theorem first_newline {fresh : Bool} {c : Char} {cs : List Char} (hblank : isBlank c = false)
    (hopen : (first fresh c cs).1.isOpen = false)
    (hline : ¬ Text.Continues (Text.lastLine (c :: cs))) (more : List Char) :
    first fresh c (cs ++ '\n' :: more) = first fresh c cs ∨
      first fresh c cs = (.directive, cs.length) ∧
        first fresh c (cs ++ '\n' :: more) = (.directive, cs.length + 1) := by
  have hnewline : Follows endsToken ('\n' :: more) := follows_cons.2 rfl
  by_cases hsettled : (first fresh c cs).1.isSettled = true
  · exact .inl (first_before hnewline hsettled)
  -- What is left are line comments and directives.
  have hhead := head?_before hnewline (d := '/') rfl cs
  have hstar := head?_before hnewline (d := '*') rfl cs
  have hletter : (cs ++ '\n' :: more).head?.any Char.isAlpha = cs.head?.any Char.isAlpha :=
    any_head?_before hnewline endsToken_of_isAlpha cs
  unfold first at hopen hsettled ⊢
  simp only [hblank, Bool.false_eq_true, ↓reduceIte, hhead, hstar, hletter] at hopen hsettled ⊢
  split
  · exact .inl (by rw [run_newline])
  next hcomment =>
  rw [if_neg hcomment] at hopen hsettled
  split
  · next hblock =>
    rw [if_pos hblock] at hopen hsettled
    split at hopen
    · next hlength =>
      rw [hlength] at hsettled
      exact absurd rfl hsettled
    · cases hopen
  next hblock =>
  rw [if_neg hblock] at hopen hsettled
  split
  · next hhash =>
    rw [if_pos hhash] at hsettled
    split
    · subst hhash
      have hsign : '\n' ∉ ['#'] := by simp
      rcases directiveLength_newline hsign hline more with hlength | hlength
      · exact .inl (by rw [hlength])
      · exact .inr ⟨by rw [hlength.1], by rw [hlength.2]⟩
    · exact .inl rfl
  · next hhash =>
    rw [if_neg hhash] at hopen hsettled
    obtain ⟨form, n, hform, hcases⟩ := firstToken_form c cs
    rw [hform] at hopen hsettled
    rcases hcases with hcases | hcases
    · exact absurd hcases hsettled
    · rw [show form.isOpen = false from hopen] at hcases
      cases hcases

/-! ## Parts of a text -/

/-- What is read and reported at the front of a text and behind it is what is read and reported in
all of it. -/
def PartsAt (fresh : Bool) (front rest : List Char) : Prop :=
  ∀ start, tokens start (cut fresh (front ++ rest)) =
      tokens start (cut fresh front) ++
        tokens (start + Text.width front) (cut (staysFresh fresh front) rest) ∧
    diagnostics start (cut fresh (front ++ rest)) =
      diagnostics start (cut fresh front) ++
        diagnostics (start + Text.width front) (cut (staysFresh fresh front) rest)

/-- What is wrong with a text is not that a string or a comment is open. -/
def Closed (ds : List Diagnostic) : Prop :=
  ∀ d ∈ ds, d.cause ≠ .unterminatedString ∧ d.cause ≠ .unterminatedComment

/-- The first piece is cut off, and the others follow. -/
theorem cut_cons {fresh : Bool} {c : Char} {rest : List Char} {form : Form} {n : Nat}
    (h : first fresh c rest = (form, n)) :
    cut fresh (c :: rest) = ⟨form, c :: rest.take n⟩ ::
      cut (staysFresh fresh (c :: rest.take n)) (rest.drop n) := by
  rw [cut, h]

/-- A blank at the front of a text is read over. -/
theorem read_blank {b : Char} (hb : isBlank b = true) (fresh : Bool) (start : Nat)
    (rest : List Char) :
    tokens start (cut fresh (b :: rest)) =
        tokens (start + Text.width [b]) (cut (staysFresh fresh [b]) rest) ∧
      diagnostics start (cut fresh (b :: rest)) =
        diagnostics (start + Text.width [b]) (cut (staysFresh fresh [b]) rest) := by
  obtain ⟨ts, hts, htokens, hdiagnostics⟩ :=
    Scans.blank hb fresh start rest (follows_anything rest)
  rw [List.map_eq_nil_iff.1 hts, List.nil_append] at htokens
  exact ⟨htokens, hdiagnostics⟩

instance (ds : List Diagnostic) : Decidable (Closed ds) :=
  inferInstanceAs (Decidable (∀ d ∈ ds, _))

namespace PartsAt

variable {fresh : Bool} {c : Char} {front rest : List Char}

theorem nil (fresh : Bool) (rest : List Char) : PartsAt fresh [] rest := by
  intro start
  simp [cut, tokens, diagnostics, staysFresh]

/-- The first piece is the same with the rest behind it. -/
theorem of_first {form : Form} {n : Nat} (hfront : first fresh c front = (form, n))
    (hfirst : first fresh c (front ++ rest) = (form, n))
    (h : PartsAt (staysFresh fresh (c :: front.take n)) (front.drop n) rest) :
    PartsAt fresh (c :: front) rest := by
  intro start
  have hle : n ≤ front.length := by simpa [hfront] using first_le fresh c front
  have hsplit : c :: front = (c :: front.take n) ++ front.drop n := by simp
  obtain ⟨htokens, hdiagnostics⟩ := h (start + Text.width (c :: front.take n))
  have hwhole := cut_cons hfirst
  rw [List.take_append_of_le_length hle, List.drop_append_of_le_length hle] at hwhole
  have hfresh : staysFresh fresh (c :: front) =
      staysFresh (staysFresh fresh (c :: front.take n)) (front.drop n) := by
    rw [← staysFresh_append, ← hsplit]
  have hwidth : start + Text.width (c :: front) =
      start + Text.width (c :: front.take n) + Text.width (front.drop n) := by
    rw [Nat.add_assoc, ← Text.width_append, ← hsplit]
  rw [List.cons_append, hwhole, cut_cons hfront, hfresh, hwidth]
  simp only [tokens, diagnostics, htokens, hdiagnostics, List.append_assoc, and_self]

/-- A blank is read over, and one in front of the rest goes together with those behind it. -/
theorem of_blank {b : Char} (hb : isBlank b = true)
    (h : PartsAt (staysFresh fresh [b]) front rest) : PartsAt fresh (b :: front) rest := by
  intro start
  obtain ⟨htokens, hdiagnostics⟩ := h (start + Text.width [b])
  have hwhole := read_blank hb fresh start (front ++ rest)
  have hfront := read_blank hb fresh start front
  have hfresh : staysFresh fresh (b :: front) = staysFresh (staysFresh fresh [b]) front :=
    staysFresh_append fresh [b] front
  have hwidth : start + Text.width (b :: front) = start + Text.width [b] + Text.width front := by
    rw [Nat.add_assoc, ← Text.width_append, List.singleton_append]
  rw [List.cons_append, hwhole.1, hwhole.2, hfront.1, hfront.2, hfresh, hwidth]
  exact ⟨htokens, hdiagnostics⟩

/-- A directive goes on to the end of its line, and so does what is behind it. -/
theorem of_directive (hfront : first fresh c front = (.directive, front.length))
    (hfirst : first fresh c (front ++ '\n' :: rest) = (.directive, front.length + 1)) :
    PartsAt fresh (c :: front) ('\n' :: rest) := by
  intro start
  have hwhole := cut_cons hfirst
  have hblank := read_blank (b := '\n') rfl (staysFresh fresh (c :: front))
    (start + Text.width (c :: front)) rest
  have htake : (front ++ '\n' :: rest).take (front.length + 1) = front ++ ['\n'] := by
    rw [← List.singleton_append, ← List.append_assoc]
    exact List.take_left' (by simp)
  have hdrop : (front ++ '\n' :: rest).drop (front.length + 1) = rest := by
    rw [← List.singleton_append, ← List.append_assoc]
    exact List.drop_left' (by simp)
  -- Behind the newline the scanner is in the same place, and at the start of a line, in both
  -- texts.
  have hfresh : staysFresh fresh (c :: (front ++ ['\n'])) =
      staysFresh (staysFresh fresh (c :: front)) ['\n'] :=
    staysFresh_append fresh (c :: front) ['\n']
  have hwidth : start + Text.width (c :: (front ++ ['\n'])) =
      start + Text.width (c :: front) + Text.width ['\n'] := by
    rw [Nat.add_assoc, ← Text.width_append, List.cons_append]
  have hnil (fresh : Bool) : cut fresh [] = [] := by rw [cut]
  rw [htake, hdrop] at hwhole
  rw [List.cons_append, hwhole, cut_cons hfront, hblank.1, hblank.2, ← hfresh, ← hwidth,
    List.drop_length, hnil]
  exact ⟨rfl, rfl⟩

end PartsAt

/-- What is wrong with a piece that wants its closing mark. -/
theorem closed_form {start : Nat} {form : Form} {text : List Char} {ps : List Piece}
    (h : Closed (diagnostics start (⟨form, text⟩ :: ps))) :
    form.isOpen = false ∧ Closed (diagnostics (start + Text.width text) ps) := by
  refine ⟨?_, fun d hd => h d (List.mem_append_right _ hd)⟩
  cases form with
  | openComment => exact absurd rfl (h _ (List.mem_append_left _ List.mem_cons_self)).2
  | openString => exact absurd rfl (h _ (List.mem_append_left _ List.mem_cons_self)).1
  | _ => rfl

/-- The lines behind a text are scanned by themselves if no string, no comment and no directive of
the text reaches into them. -/
theorem partsAt_newline {fresh : Bool} {start : Nat} {cs : List Char}
    (hclosed : Closed (diagnostics start (cut fresh cs)))
    (hline : ¬ Text.Continues (Text.lastLine cs)) (more : List Char) :
    PartsAt fresh cs ('\n' :: more) := by
  match cs with
  | [] => exact .nil fresh _
  | c :: cs =>
    -- Induction on the text: a blank is taken away alone, any other piece as a whole.
    cases hblank : isBlank c with
    | true =>
      rw [(read_blank hblank fresh start cs).2] at hclosed
      obtain ⟨zs, hzs⟩ := Text.lastLine_append [c] cs
      have hrest : ¬ Text.Continues (Text.lastLine cs) :=
        fun h => hline (by rw [← List.singleton_append, hzs]; exact h.append zs)
      exact .of_blank hblank (partsAt_newline hclosed hrest more)
    | false =>
      obtain ⟨form, n, hfirst⟩ : ∃ form n, first fresh c cs = (form, n) := ⟨_, _, rfl⟩
      rw [cut_cons hfirst] at hclosed
      obtain ⟨hopen, hclosed⟩ := closed_form hclosed
      rcases first_newline hblank (by rw [hfirst]; exact hopen) hline more with hsame | hdirective
      · obtain ⟨zs, hzs⟩ := Text.lastLine_append (c :: cs.take n) (cs.drop n)
        have hrest : ¬ Text.Continues (Text.lastLine (cs.drop n)) := by
          intro h
          rw [List.cons_append, List.take_append_drop] at hzs
          exact hline (by rw [hzs]; exact h.append zs)
        exact .of_first hfirst (hsame.trans hfirst) (partsAt_newline hclosed hrest more)
      · exact .of_directive hdirective.1 hdirective.2
termination_by cs.length
decreasing_by all_goals simp only [List.length_cons, List.length_drop]; omega

end Piece

/-- Lines that are put behind a text are scanned by themselves, and what is found stands further on
by the text and the newline. The text leaves no string and no comment open, and its last line does
not go on. -/
theorem scan_lines {a b : String} (hclosed : Piece.Closed (scan a).diagnostics)
    (hline : ¬ Text.Continues (Text.lastLine a.toList)) :
    scan (a ++ "\n" ++ b) =
      ⟨(scan a).tokens.filter (·.kind ≠ .endOfInput) ++
          (scan b).tokens.map (Token.moved (Text.width a.toList + 1)),
        (scan a).diagnostics ++
          (scan b).diagnostics.map (Diagnostic.shift (Text.width a.toList + 1))⟩ := by
  have htext : (a ++ "\n" ++ b).toList = a.toList ++ '\n' :: b.toList := by simp
  obtain ⟨htokens, hdiagnostics⟩ := Piece.partsAt_newline hclosed hline b.toList 0
  -- Behind the newline the line is blank, as at the start of a text.
  have hfresh (fresh : Bool) : Piece.staysFresh fresh ['\n'] = true := by simp [Piece.staysFresh]
  have hwidth : Text.width ['\n'] = 1 := rfl
  have hplace : 0 + Text.width a.toList + Text.width ['\n'] = 0 + (Text.width a.toList + 1) := by
    rw [hwidth, Nat.add_assoc]
  have hnewline (fresh : Bool) := Piece.read_blank (b := '\n') rfl fresh (0 + Text.width a.toList)
    b.toList
  rw [(hnewline _).1, hfresh, hplace, Piece.tokens_moved] at htokens
  rw [(hnewline _).2, hfresh, hplace, Piece.diagnostics_moved] at hdiagnostics
  have hend : Token.endAt (Text.width (a.toList ++ '\n' :: b.toList)) =
      (Token.endAt (Text.width b.toList)).moved (Text.width a.toList + 1) := by
    have hstop : Text.width (a.toList ++ '\n' :: b.toList) =
        Text.width b.toList + (Text.width a.toList + 1) := by
      rw [← List.singleton_append, Text.width_append, Text.width_append, hwidth]
      omega
    rw [hstop]
    rfl
  rw [filter_tokens_scan, tokens_scan b, List.map_append, ← List.append_assoc]
  exact congrArg₂ Scanned.mk
    (by rw [htext]; exact congrArg₂ (· ++ ·) htokens (congrArg (fun t => [t]) hend))
    (by rw [htext]; exact hdiagnostics)

/-- A directive on two lines, a comment and a stray character, then one more directive. -/
theorem scan_lines_directives :
    scan ("#define A \\\n 1\n& x /**/" ++ "\n" ++ "#ifdef A\n'y' ;") =
      ⟨[⟨.identifier, "x", ⟨17, 18⟩⟩, ⟨.string, "y", ⟨33, 36⟩⟩, ⟨.semicolon, ";", ⟨37, 38⟩⟩,
        .endAt 38], [⟨.unrecognisedToken "&", ⟨15, 16⟩⟩]⟩ :=
  (scan_lines (by decide +kernel) (by decide +kernel)).trans (by decide +kernel)

end Sqf
