import Sqf.Diagnostic.Render
import Sqf.Proofs.Text.Lines
import Sqf.Proofs.Token.Stretch

/-!
# Carets below the text

A diagnostic that marks a part of one line is shown as that line and a row of carets
(`carets_below_text`). The number of the line stands before it, and its indentation is removed;
the carets move by both, so that each stands in the column of the character it is for.
-/

namespace Sqf.Diagnostic

open Text (width isBlank trimRight slice? splitAt? LineOf)

/-- The characters of `marked` stand in the line `shown` from `column` on, as far as the line
goes, and one caret for each stands in the same column of the line `carets`. The line may end
in the middle of `marked` if nothing but blanks is cut off. -/
structure PointsAt (shown carets marked : List Char) (column : Nat) : Prop where
  count : carets.count '^' = marked.length
  caret : ∀ i < marked.length, carets[column + i]? = some '^'
  char : ∀ i < marked.length, column + i < shown.length → shown[column + i]? = marked[i]?
  cut : ∀ i < marked.length, shown.length ≤ column + i → ∀ c ∈ marked.drop i, isBlank c = true

/-- Only blanks are cut off at the end. -/
theorem exists_trimRight (cs : List Char) :
    ∃ blanks, cs = trimRight cs ++ blanks ∧ ∀ c ∈ blanks, isBlank c = true := by
  induction cs with
  | nil => exact ⟨[], rfl, by simp⟩
  | cons c cs ih =>
    obtain ⟨blanks, hcs, hblank⟩ := ih
    rw [trimRight]
    -- The first character is trimmed if it is a blank and all behind it is trimmed.
    cases htrim : trimRight cs with
    | cons d ds =>
      refine ⟨blanks, ?_, hblank⟩
      rw [hcs, htrim]
      rfl
    | nil =>
      rw [htrim, List.nil_append] at hcs
      by_cases hc : isBlank c = true
      · refine ⟨c :: cs, by simp [hc], ?_⟩
        rw [List.forall_mem_cons, hcs]
        exact ⟨hc, hblank⟩
      · exact ⟨blanks, by simp [hc, hcs], hblank⟩

/-- A blank at the end is trimmed. -/
theorem trimRight_append_blank {c : Char} (hc : isBlank c = true) (cs : List Char) :
    trimRight (cs ++ [c]) = trimRight cs := by
  induction cs with
  | nil => simp [trimRight, hc]
  | cons d ds ih => rw [List.cons_append, trimRight, ih, trimRight]

/-- A newline at the end of a line is cut off. -/
theorem newline_not_mem_trimRight {line : List Char} (h : '\n' ∉ line.dropLast) :
    '\n' ∉ trimRight line := by
  have hsub (cs : List Char) (hmem : '\n' ∈ trimRight cs) : '\n' ∈ cs := by
    obtain ⟨blanks, hcs, -⟩ := exists_trimRight cs
    rw [hcs]
    exact List.mem_append_left _ hmem
  rcases List.eq_nil_or_concat' line with rfl | ⟨front, c, rfl⟩
  · exact List.not_mem_nil
  rw [List.dropLast_concat] at h
  -- The newline at the end of the line is a blank.
  by_cases hc : c = '\n'
  · subst hc
    rw [trimRight_append_blank (by decide)]
    exact mt (hsub front) h
  · refine mt (hsub _) ?_
    rw [List.mem_append, List.mem_singleton, not_or]
    exact ⟨h, Ne.symm hc⟩

/-- The text between two offsets stands behind one text and before another. -/
theorem exists_slice {start stop : Nat} {source marked : List Char}
    (h : slice? start stop source = some marked) :
    ∃ front back, source = front ++ marked ++ back ∧ width front = start := by
  rw [slice?] at h
  split at h
  · obtain ⟨⟨front, rest⟩, hfront, h⟩ := Option.bind_eq_some_iff.1 h
    obtain ⟨⟨middle, back⟩, hmiddle, h⟩ := Option.bind_eq_some_iff.1 h
    cases h
    obtain ⟨rfl, hwidth⟩ := Text.splitAt?_eq_some hfront
    obtain ⟨rfl, -⟩ := Text.splitAt?_eq_some hmiddle
    exact ⟨front, back, (List.append_assoc ..).symm, hwidth⟩
  · cases h

/-- Of two cuts of one text, the one in front of the other. -/
theorem exists_between {xs ys us vs : List Char} (h : xs ++ ys = us ++ vs)
    (hle : width us ≤ width xs) : ∃ ws, xs = us ++ ws ∧ vs = ws ++ ys := by
  rcases List.append_eq_append_iff.1 h with ⟨ws, hus, hys⟩ | ⟨ws, hxs, hvs⟩
  · have hws : ws = [] := by
      rw [hus, Text.width_append] at hle
      exact Text.width_eq_zero_iff.1 (by omega)
    subst hws
    exact ⟨[], by rw [hus]; simp, by rw [hys]; simp⟩
  · exact ⟨ws, hxs, hvs⟩

/-- A text without a newline before its end that starts in a line ends in that line. -/
theorem exists_line_around {text above line below front marked back : List Char}
    (hline : LineOf text above line below) (hfront : text = front ++ marked ++ back)
    (hge : width above ≤ width front) (hlt : width front < width (above ++ line))
    (hmarked : '\n' ∉ marked.dropLast) :
    ∃ pre tail, front = above ++ pre ∧ line = pre ++ marked ++ tail := by
  have htext : front ++ (marked ++ back) = above ++ (line ++ below) := by
    rw [← List.append_assoc, ← hfront, hline.eq, List.append_assoc]
  obtain ⟨pre, rfl, hrest⟩ := exists_between htext hge
  have hpre : width pre ≤ width line := by
    rw [Text.width_append, Text.width_append] at hlt
    omega
  obtain ⟨first, rfl, hmore⟩ := exists_between hrest hpre
  refine ⟨pre, ?_⟩
  -- The line holds `first` behind `pre`, and `first` is the front of `marked` or reaches past it.
  rcases List.append_eq_append_iff.1 hmore with ⟨tail, hfirst, -⟩ | ⟨others, hothers, hbelow⟩
  · exact ⟨tail, rfl, by rw [hfirst, List.append_assoc]⟩
  by_cases hnil : others = []
  · subst hnil
    exact ⟨[], rfl, by rw [hothers]; simp⟩
  exfalso
  have hfirst : first ≠ [] := by
    rintro rfl
    rw [Text.width_append, Text.width_append, List.append_nil] at hlt
    omega
  have hlast := hline.ends.resolve_left (by simp [hbelow, hnil])
  rw [List.getLast?_append_of_ne_nil _ hfirst] at hlast
  refine hmarked ?_
  rw [hothers, List.dropLast_append_of_ne_nil hnil]
  exact List.mem_append_left _ (List.mem_of_getLast? hlast)

/-- Where a line goes on with something else than spaces and tabs, the indentation is that of the
text before. -/
theorem exists_removeIndent (pre : List Char) {c : Char} (hc : isBlank c = false)
    (cs : List Char) :
    ∃ indent lead, pre = indent ++ lead ∧ (∀ d ∈ indent, d = ' ' ∨ d = '\t') ∧
      removeIndent (pre ++ c :: cs) = (lead ++ c :: cs, indent.length) := by
  -- The indentation ends at the first character that is neither a space nor a tab.
  induction pre with
  | nil =>
    have hspace : (c == ' ' || c == '\t') = false := by
      rw [Bool.or_eq_false_iff, beq_eq_false_iff_ne, beq_eq_false_iff_ne]
      constructor <;> rintro rfl <;> revert hc <;> decide
    exact ⟨[], [], rfl, by simp, by simp [removeIndent, hspace]⟩
  | cons d ds ih =>
    by_cases hd : (d == ' ' || d == '\t') = true
    · obtain ⟨indent, lead, rfl, hindent, hremove⟩ := ih
      refine ⟨d :: indent, lead, rfl, ?_, ?_⟩
      · rw [List.forall_mem_cons]
        exact ⟨by simpa using hd, hindent⟩
      · rw [removeIndent, Prod.mk.injEq] at hremove
        simpa [removeIndent, hd] using hremove
    · exact ⟨[], d :: ds, rfl, by simp, by simp [removeIndent, hd]⟩

/-- The column of an offset is the number of characters before it. -/
theorem columnOf_width (pre rest : List Char) :
    columnOf (pre ++ rest) (width pre) = pre.length := by
  have hslice : slice? 0 (width pre) (pre ++ rest) = some pre :=
    Text.slice?_middle [] pre rest
  rw [columnOf, hslice]

/-- A text is aligned by spaces in front of it. -/
theorem toList_alignRight (size : Nat) (text : String) :
    (alignRight size text).toList = List.replicate (size - text.length) ' ' ++ text.toList := by
  rw [alignRight, String.toList_append, String.toList_ofList]

/-- The last line has the carets behind a margin as wide as the number of the line and the text
before the mark. -/
theorem toList_caretLine {padding : Nat} (column indent marked : Nat) (hpadding : 0 < padding)
    (hmarked : 0 < marked) :
    ∃ margin : List Char, margin.length = padding + 1 + (column - indent) ∧ '^' ∉ margin ∧
      '\n' ∉ margin ∧
      (caretLine padding column indent marked).toList = margin ++ List.replicate marked '^' := by
  have hmax : max marked 1 = marked := Nat.max_eq_left hmarked
  refine ⟨List.replicate (padding - 1) ' ' ++ ['|', ' '] ++ List.replicate (column - indent) ' ',
    ?_, ?_, ?_, ?_⟩
  · simp
    omega
  · simp [List.mem_replicate]
  · simp [List.mem_replicate]
  · have hcarets : (column - indent) + marked - marked = column - indent := by omega
    have hbar : "|".length = 1 := rfl
    simp [caretLine, toList_alignRight, hmax, hcarets, hbar]

/-- A number has no newline. -/
theorem newline_not_mem_number (n : Nat) : '\n' ∉ (toString n).toList := by
  rw [Nat.toString_eq_repr, Nat.repr_eq_ofList_toDigits, String.toList_ofList]
  intro h
  exact absurd (Nat.isDigit_of_mem_toDigits (by decide) (by decide) h) (by decide)

/-- What is shown ends in the line of the source and the line of carets. -/
theorem exists_render (d : Diagnostic) (file source : String) {number offset indent : Nat}
    {text line : List Char}
    (hplace : Text.placeOf source.toList d.span.start = ⟨number, text, offset⟩)
    (hindent : removeIndent text = (line, indent)) :
    ∃ front, (d.render file source).toList =
      front ++ '\n' :: ((toString number ++ " | ").toList ++ trimRight line ++
        '\n' :: (caretLine ((toString number).length + 2) (columnOf text offset) indent
          (markedLength source.toList d.span)).toList) := by
  obtain ⟨head, hrender⟩ : ∃ head : String, d.render file source =
      head ++ "\n" ++ toString number ++ " | " ++ String.ofList (trimRight line) ++ "\n" ++
        caretLine ((toString number).length + 2) (columnOf text offset) indent
          (markedLength source.toList d.span) := by
    delta render
    simp only [hplace, hindent]
    exact ⟨_, rfl⟩
  have hnewline : "\n".toList = ['\n'] := rfl
  refine ⟨head.toList, ?_⟩
  simp [hrender, hnewline]

/-- Carets behind a margin as wide as what stands before the mark point at it. -/
theorem pointsAt_of_margin {margin gutter lead : List Char} (marked tail : List Char)
    (hwidth : margin.length = gutter.length + lead.length) (hmargin : '^' ∉ margin) :
    PointsAt (gutter ++ trimRight (lead ++ marked ++ tail))
      (margin ++ List.replicate marked.length '^') marked margin.length := by
  obtain ⟨blanks, hline, hblanks⟩ := exists_trimRight (lead ++ marked ++ tail)
  generalize trimRight (lead ++ marked ++ tail) = kept at hline ⊢
  -- In order: how many carets there are, where they stand, what is above them, and what of the text
  -- may have been trimmed.
  refine ⟨?_, ?_, ?_, ?_⟩
  · rw [List.count_append, List.count_eq_zero.2 hmargin, List.count_replicate_self, Nat.zero_add]
  · intro i hi
    rw [List.getElem?_append_right (Nat.le_add_right _ _), Nat.add_sub_cancel_left,
      List.getElem?_replicate_of_lt hi]
  · intro i hi hshown
    rw [List.length_append] at hshown
    have hkept : (kept ++ blanks)[lead.length + i]? = kept[lead.length + i]? :=
      List.getElem?_append_left (by omega)
    rw [hwidth, Nat.add_assoc, List.getElem?_append_right (Nat.le_add_right _ _),
      Nat.add_sub_cancel_left, ← hkept, ← hline, List.append_assoc,
      List.getElem?_append_right (Nat.le_add_right _ _), Nat.add_sub_cancel_left,
      List.getElem?_append_left hi]
  · intro i hi hshown c hc
    rw [List.length_append] at hshown
    have hdrop : (lead ++ marked ++ tail).drop (lead.length + i) = marked.drop i ++ tail := by
      rw [List.append_assoc, List.drop_append, List.drop_append_of_le_length (by omega)]
      simp
    refine hblanks c (List.mem_of_mem_drop (i := lead.length + i - kept.length) ?_)
    have hkept : kept.length ≤ lead.length + i := by omega
    rw [hline, List.drop_append, List.drop_eq_nil_of_le hkept, List.nil_append] at hdrop
    rw [hdrop]
    exact List.mem_append_left _ hc

/-- A diagnostic whose span stands over a text that starts with no blank and has no newline
before its end: the line around the text is shown behind its number, without its indentation,
and below it one caret for each character of the text, in the same column. -/
theorem carets_below_text (d : Diagnostic) (file source : String) {c : Char} {cs : List Char}
    (hmarked : slice? d.span.start d.span.stop source.toList = some (c :: cs))
    (hfirst : isBlank c = false) (hline : '\n' ∉ (c :: cs).dropLast) :
    ∃ above indent lead tail below front shown carets,
      LineOf source.toList above (indent ++ lead ++ c :: cs ++ tail) below ∧
      width (above ++ indent ++ lead) = d.span.start ∧
      (∀ e ∈ indent, e = ' ' ∨ e = '\t') ∧
      (d.render file source).toList = front ++ '\n' :: (shown ++ '\n' :: carets) ∧
      '\n' ∉ shown ∧ '\n' ∉ carets ∧
      shown = (toString (1 + above.count '\n') ++ " | ").toList ++
        trimRight (lead ++ c :: cs ++ tail) ∧
      PointsAt shown carets (c :: cs)
        ((toString (1 + above.count '\n') ++ " | ").length + lead.length) := by
  obtain ⟨before, back, hsource, hwidth⟩ := exists_slice hmarked
  have hpositive : 0 < width (c :: cs) := by
    rw [Text.width_cons]
    exact Nat.add_pos_left c.utf8Size_pos _
  have hinside : d.span.start < width source.toList := by
    rw [hsource, Text.width_append, Text.width_append, hwidth]
    omega
  obtain ⟨above, line, below, hof, hge, hlt, hplace⟩ := Text.exists_lineOf hinside
  obtain ⟨pre, tail, rfl, rfl⟩ := exists_line_around hof hsource (hwidth ▸ hge) (hwidth ▸ hlt) hline
  obtain ⟨indent, lead, rfl, hindent, hremove⟩ := exists_removeIndent pre hfirst (cs ++ tail)
  have htext : indent ++ lead ++ c :: (cs ++ tail) = indent ++ lead ++ c :: cs ++ tail := by simp
  have hrest : lead ++ c :: (cs ++ tail) = lead ++ c :: cs ++ tail := by simp
  rw [htext, hrest] at hremove
  have hoffset : d.span.start - width above = width (indent ++ lead) := by
    rw [← hwidth, Text.width_append, Nat.add_sub_cancel_left]
  -- Columns count characters, so the width of what is in front is turned into a number of them.
  have hcolumn : columnOf (indent ++ lead ++ c :: cs ++ tail) (d.span.start - width above) =
      (indent ++ lead).length := by
    rw [hoffset, List.append_assoc, columnOf_width]
  have hlength : markedLength source.toList d.span = (c :: cs).length := by
    rw [markedLength, hmarked]
  obtain ⟨front, hrender⟩ := exists_render d file source hplace hremove
  obtain ⟨margin, hmargin, hcaret, hnewline, hcarets⟩ :=
    toList_caretLine (indent ++ lead).length indent.length (c :: cs).length
      (show 0 < (toString (1 + above.count '\n')).length + 2 from Nat.succ_pos _) (Nat.succ_pos _)
  rw [hcolumn, hlength, hcarets] at hrender
  have hgutter : margin.length =
      (toString (1 + above.count '\n') ++ " | ").toList.length + lead.length := by
    rw [hmargin, List.length_append, String.toList_append, List.length_append, String.length_toList,
      String.length_toList]
    have hbar : " | ".length = 3 := rfl
    omega
  refine ⟨above, indent, lead, tail, below, front, _, _, hof, by rw [List.append_assoc, hwidth],
    hindent, hrender, ?_, ?_, rfl, ?_⟩
  · rw [List.mem_append, String.toList_append, List.mem_append, not_or, not_or]
    have hshown : '\n' ∉ (lead ++ c :: cs ++ tail).dropLast := by
      have hdropLast := hof.newline_not_mem
      rw [List.append_assoc, List.append_assoc, List.dropLast_append_of_ne_nil (by simp),
        List.mem_append, not_or, ← List.append_assoc] at hdropLast
      exact hdropLast.2
    exact ⟨⟨newline_not_mem_number _, by decide⟩, newline_not_mem_trimRight hshown⟩
  · rw [List.mem_append, not_or]
    exact ⟨hnewline, by simp [List.mem_replicate]⟩
  · have hpoints := pointsAt_of_margin (c :: cs) tail hgutter hcaret
    rw [hgutter, String.length_toList] at hpoints
    exact hpoints

/-- A string with an accent, four bytes long, in an indented second line. -/
theorem carets_below_accent :
    slice? 15 19 "_a = 1;\n\t hint \"é\";".toList = some ['"', 'é', '"'] ∧
      ∃ front shown carets column,
        (render ⟨.typeMismatch "Number" "String", ⟨15, 19⟩⟩ "init.sqf"
            "_a = 1;\n\t hint \"é\";").toList = front ++ '\n' :: (shown ++ '\n' :: carets) ∧
          PointsAt shown carets ['"', 'é', '"'] column := by
  have hmarked : slice? 15 19 "_a = 1;\n\t hint \"é\";".toList = some ['"', 'é', '"'] := by
    decide +kernel
  obtain ⟨_, _, lead, _, _, front, shown, carets, _, _, _, hrender, _, _, _, hpoints⟩ :=
    carets_below_text ⟨.typeMismatch "Number" "String", ⟨15, 19⟩⟩ "init.sqf"
      "_a = 1;\n\t hint \"é\";" hmarked (by decide) (by decide)
  exact ⟨hmarked, front, shown, carets, _, hrender, hpoints⟩

end Sqf.Diagnostic
