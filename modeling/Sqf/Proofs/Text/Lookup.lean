import Sqf.Proofs.Text.Lines

/-!
# Looking up a line

`placeOf` looks up the line of an offset. An offset in a text is in the line around it, and the end
of a text is in its last line, which is empty if the text is empty or a newline closes it
(`InLine`). For every offset the lookup gives this line, the number of the newlines before it and
how far the offset is into the line (`placeOf_inLine`).
-/

namespace Sqf.Text

/-! ## Bytes -/

/-- The bytes of the UTF-8 form. -/
def bytes (cs : List Char) : List UInt8 := cs.flatMap String.utf8EncodeChar

theorem bytes_cons (c : Char) (cs : List Char) :
    bytes (c :: cs) = String.utf8EncodeChar c ++ bytes cs :=
  List.flatMap_cons

theorem bytes_append (cs ds : List Char) : bytes (cs ++ ds) = bytes cs ++ bytes ds :=
  List.flatMap_append

/-- A text takes as many bytes as its width says. -/
theorem length_bytes (cs : List Char) : (bytes cs).length = width cs := by
  induction cs with
  | nil => rfl
  | cons c cs ih =>
    rw [bytes_cons, List.length_append, String.length_utf8EncodeChar, ih, width_cons]

/-- These are the bytes of the text in UTF-8. -/
theorem toList_toUTF8 (source : String) : source.toUTF8.data.toList = bytes source.toList := by
  rw [String.toUTF8_eq_toByteArray, ← String.utf8Encode_toList, List.utf8Encode,
    List.data_toByteArray, bytes]

/-- No other character has the byte of a newline. -/
theorem newline_not_mem_utf8EncodeChar {c : Char} (hc : c ≠ '\n') :
    10 ∉ String.utf8EncodeChar c := by
  have hne : c.val.toNat ≠ 10 := by
    intro h
    exact hc (Char.ext (UInt32.toNat_inj.1 h))
  have hbyte : ∀ n, n ≠ 10 → n < 256 → 10 ≠ UInt8.ofNat n := by
    intro n hn hlt h
    have htoNat := congrArg UInt8.toNat h
    rw [UInt8.toNat_ofNat', Nat.mod_eq_of_lt hlt] at htoNat
    exact hn htoNat.symm
  rw [String.utf8EncodeChar]
  split
  · rw [List.mem_singleton]
    exact hbyte _ hne (by omega)
  -- The bytes of a longer form are 128 at least.
  split
  · simp only [List.mem_cons, List.not_mem_nil, or_false, not_or]
    exact ⟨hbyte _ (by omega) (by omega), hbyte _ (by omega) (by omega)⟩
  split
  · simp only [List.mem_cons, List.not_mem_nil, or_false, not_or]
    exact ⟨hbyte _ (by omega) (by omega), hbyte _ (by omega) (by omega),
      hbyte _ (by omega) (by omega)⟩
  · simp only [List.mem_cons, List.not_mem_nil, or_false, not_or]
    exact ⟨hbyte _ (by omega) (by omega), hbyte _ (by omega) (by omega),
      hbyte _ (by omega) (by omega), hbyte _ (by omega) (by omega)⟩

/-- A newline is one byte, and no other character has this byte. -/
theorem count_bytes (cs : List Char) : (bytes cs).count 10 = cs.count '\n' := by
  induction cs with
  | nil => rfl
  | cons c cs ih =>
    rw [bytes_cons, List.count_append, ih]
    by_cases hc : c = '\n'
    · subst hc
      rw [List.count_cons_self, Nat.add_comm]
      rfl
    · rw [List.count_eq_zero.2 (newline_not_mem_utf8EncodeChar hc), List.count_cons_of_ne hc,
        Nat.zero_add]

/-! ## The line of an offset -/

/-- The offset is in the line `line`, with the lines `above` before it and the lines `below`
behind. The end of the text is in the last line, if no newline ends it. -/
structure InLine (text above line below : List Char) (offset : Nat) : Prop where
  eq : text = above ++ line ++ below
  above_ends : above = [] ∨ above.getLast? = some '\n'
  newline_not_mem : '\n' ∉ line.dropLast
  ends : below = [] ∨ line.getLast? = some '\n'
  start_le : width above ≤ offset
  stop : offset < width (above ++ line) ∨ offset = width text ∧ line.getLast? ≠ some '\n'

variable {text above line below : List Char} {offset : Nat}

theorem LineOf.inLine (h : LineOf text above line below) (hge : width above ≤ offset)
    (hlt : offset < width (above ++ line)) : InLine text above line below offset :=
  ⟨h.eq, h.above_ends, h.newline_not_mem, h.ends, hge, .inl hlt⟩

/-- A newline is at the end of a line or not in it. -/
theorem newline_not_mem_of_getLast? (hmem : '\n' ∉ line.dropLast)
    (hlast : line.getLast? ≠ some '\n') : '\n' ∉ line := by
  rcases List.eq_nil_or_concat' line with rfl | ⟨front, c, rfl⟩
  · exact List.not_mem_nil
  rw [List.dropLast_concat] at hmem
  rw [List.getLast?_concat] at hlast
  rw [List.mem_append, List.mem_singleton, not_or]
  exact ⟨hmem, fun hc => hlast (congrArg some hc.symm)⟩

namespace InLine

/-- There is no newline in the line before the offset. -/
theorem exists_front (h : InLine text above line below offset) :
    ∃ front back, line = front ++ back ∧ '\n' ∉ front ∧ offset ≤ width (above ++ front) := by
  -- The newline at the end of the line, if there is one, is not passed.
  by_cases hlast : line.getLast? = some '\n'
  · obtain ⟨front, rfl⟩ : ∃ front, line = front ++ ['\n'] :=
      ⟨line.dropLast, (List.dropLast_append_getLast? _ hlast).symm⟩
    have hmem := h.newline_not_mem
    rw [List.dropLast_concat] at hmem
    have hlt := h.stop.resolve_right fun hend => hend.2 hlast
    rw [← List.append_assoc, width_append] at hlt
    have hone : width ['\n'] = 1 := rfl
    exact ⟨front, _, rfl, hmem, by omega⟩
  · refine ⟨line, [], (List.append_nil line).symm,
      newline_not_mem_of_getLast? h.newline_not_mem hlast, ?_⟩
    rcases h.stop with hlt | ⟨hend, -⟩
    · exact Nat.le_of_lt hlt
    · have htext := h.eq
      rw [h.ends.resolve_right hlast, List.append_nil] at htext
      exact Nat.le_of_eq (hend.trans (congrArg width htext))

/-- The newlines before the offset are those of the lines above. -/
theorem count_take (h : InLine text above line below offset) :
    ((bytes text).take offset).count 10 = above.count '\n' := by
  obtain ⟨front, back, hline, hmem, hle⟩ := h.exists_front
  -- The bytes up to the offset are those above and some of the line, without its newline.
  have htake : (bytes text).take offset =
      bytes above ++ (bytes front).take (offset - width above) := by
    have hge := h.start_le
    rw [width_append] at hle
    rw [h.eq, hline, List.append_assoc, List.append_assoc, bytes_append, bytes_append,
      List.take_append, List.take_append, length_bytes, length_bytes,
      List.take_of_length_le (by rw [length_bytes]; exact hge),
      Nat.sub_eq_zero_of_le (Nat.sub_le_iff_le_add'.2 hle), List.take_zero, List.append_nil]
  have hfront : 10 ∉ bytes front := by
    rw [← List.count_eq_zero, count_bytes, List.count_eq_zero]
    exact hmem
  rw [htake, List.count_append, count_bytes,
    List.count_eq_zero.2 fun h => hfront (List.mem_of_mem_take h), Nat.add_zero]

/-- The line is empty only at the end of a text that is empty or ends with a newline. -/
theorem line_eq_nil_iff (h : InLine text above line below offset) :
    line = [] ↔ offset = width text ∧ (text = [] ∨ text.getLast? = some '\n') := by
  -- A line that is empty has no byte that the offset could be in.
  constructor
  · rintro rfl
    obtain rfl := h.ends.resolve_right (by simp)
    have htext := h.eq
    rw [List.append_nil, List.append_nil] at htext
    have hend := h.stop.resolve_left (by
      rw [List.append_nil]
      exact Nat.not_lt.2 h.start_le)
    exact ⟨hend.1, htext ▸ h.above_ends⟩
  · rintro ⟨hend, htext⟩
    have hlast : line.getLast? ≠ some '\n' := by
      rcases h.stop with hlt | ⟨-, hlast⟩
      · rw [hend, h.eq, width_append] at hlt
        exact absurd hlt (Nat.not_lt.2 (Nat.le_add_right _ _))
      · exact hlast
    obtain rfl := h.ends.resolve_right hlast
    by_contra hline
    have heq := h.eq
    rw [List.append_nil] at heq
    rcases htext with hnil | hnewline
    · rw [heq, List.append_eq_nil_iff] at hnil
      exact hline hnil.2
    · rw [heq, List.getLast?_append_of_ne_nil _ hline] at hnewline
      exact hlast hnewline

end InLine

/-! ## Looking up -/

/-- What holds of the empty text, and of a text if it holds of what stands behind its first line,
holds of all texts. -/
theorem lines_induction {P : List Char → Prop} (nil : P [])
    (line : ∀ {text first rest}, LineOf text [] first rest → P rest → P text)
    (text : List Char) : P text := by
  by_cases htext : text = []
  · exact htext ▸ nil
  obtain ⟨first, rest, hfirst⟩ := exists_first_line htext
  exact line hfirst (lines_induction nil line rest)
termination_by text.length
decreasing_by
  have hlength : text.length = first.length + rest.length := by
    rw [hfirst.eq, List.nil_append, List.length_append]
  have hpos := List.length_pos_iff.2 hfirst.ne_nil
  omega

section FirstLine

variable {first rest : List Char} (hfirst : LineOf text [] first rest)

include hfirst

/-- The first line and the rest make up the text. -/
theorem LineOf.width_eq : width text = width first + width rest := by
  rw [hfirst.eq, List.nil_append, width_append]

theorem LineOf.count_newline (hlast : first.getLast? = some '\n') : first.count '\n' = 1 := by
  rw [← List.dropLast_append_getLast? _ hlast, List.count_append,
    List.count_eq_zero.2 hfirst.newline_not_mem]
  rfl

/-- The first line is one line more above. -/
theorem InLine.behind (hlast : first.getLast? = some '\n')
    (h : InLine rest above line below offset) :
    InLine text (first ++ above) line below (width first + offset) := by
  refine ⟨?_, ?_, h.newline_not_mem, h.ends, ?_, ?_⟩
  · rw [hfirst.eq, h.eq]
    simp
  · right
    rcases h.above_ends with rfl | hends
    · rwa [List.append_nil]
    · rw [List.getLast?_append, hends]
      rfl
  · rw [width_append]
    exact Nat.add_le_add_left h.start_le _
  · rw [List.append_assoc, width_append, hfirst.width_eq]
    refine h.stop.imp (Nat.add_lt_add_left · _) (And.imp_left fun hend => ?_)
    rw [hend]

end FirstLine

/-- The end of a text is in the last line, of lines that are numbered from `number` on. -/
theorem exists_placeIn_end (text : List Char) (number : Nat) (h : width text ≤ offset) :
    ∃ above line, InLine text above line [] (width text) ∧
      placeIn number (lines text) offset = ⟨number + above.count '\n', line, width line⟩ := by
  have hnil : InLine [] [] [] [] (width []) :=
    ⟨rfl, .inl rfl, List.not_mem_nil, .inl rfl, Nat.le_refl _, .inr ⟨rfl, by simp⟩⟩
  -- Line by line: the offset is behind the first one, and the lookup goes on in the rest.
  induction text using lines_induction generalizing number offset with
  | nil => exact ⟨[], [], hnil, rfl⟩
  | @line text first rest hfirst ih =>
    have hwidth := hfirst.width_eq
    have hbehind : ¬ offset < width first := by omega
    rw [hfirst.lines_eq, hwidth]
    by_cases hrest : rest = []
    · subst hrest
      rw [lines, placeIn, if_neg hbehind]
      split
      · next hlast =>
        refine ⟨first ++ [], [], hnil.behind hfirst hlast, ?_⟩
        rw [List.append_nil, hfirst.count_newline hlast]
        rfl
      · next hlast =>
        refine ⟨[], first, ⟨hfirst.eq, .inl rfl, hfirst.newline_not_mem, .inl rfl, Nat.zero_le _,
          .inr ⟨hwidth.symm, hlast⟩⟩, rfl⟩
    · obtain ⟨second, below, hsecond⟩ := exists_first_line hrest
      obtain ⟨above, line, hinLine, hplace⟩ :=
        ih (number + 1) (show width rest ≤ offset - width first by omega)
      have hlast := hfirst.ends.resolve_left hrest
      refine ⟨first ++ above, line, hinLine.behind hfirst hlast, ?_⟩
      rw [hsecond.lines_eq] at hplace ⊢
      rw [placeIn, if_neg hbehind, hplace, List.count_append, hfirst.count_newline hlast,
        Nat.add_assoc]
      simp

/-- For every offset the line around it is found, or the last line if the offset is not before the
end of the text. The number of the line is one more than that of the newlines before the offset. -/
theorem placeOf_inLine (source : String) (position : Nat) :
    let bytes := source.toUTF8.data.toList
    let offset := min position bytes.length
    ∃ above line below, InLine source.toList above line below offset ∧
      (line = [] ↔ offset = bytes.length ∧
        (source.toList = [] ∨ source.toList.getLast? = some '\n')) ∧
      placeOf source.toList position =
        ⟨1 + (bytes.take offset).count 10, line, offset - width above⟩ := by
  rw [toList_toUTF8]
  intro bytes offset
  have hlength : bytes.length = width source.toList := length_bytes _
  suffices hfound : ∃ above line below, InLine source.toList above line below offset ∧
      placeOf source.toList position = ⟨1 + above.count '\n', line, offset - width above⟩ by
    obtain ⟨above, line, below, hinLine, hplace⟩ := hfound
    refine ⟨above, line, below, hinLine, ?_, ?_⟩
    · rw [hlength]
      exact hinLine.line_eq_nil_iff
    · rw [hplace, hinLine.count_take]
  by_cases hin : position < width source.toList
  · have hoffset : offset = position := by omega
    obtain ⟨above, line, below, hline, hge, hlt, hplace⟩ := exists_lineOf hin
    rw [hoffset]
    exact ⟨above, line, below, hline.inLine hge hlt, hplace⟩
  · have hoffset : offset = width source.toList := by omega
    obtain ⟨above, line, hinLine, hplace⟩ :=
      exists_placeIn_end source.toList 1 (Nat.le_of_not_lt hin)
    rw [hoffset]
    refine ⟨above, line, [], hinLine, ?_⟩
    have hwidth := congrArg width hinLine.eq
    rw [List.append_nil, width_append] at hwidth
    rw [placeOf, hplace, hwidth, Nat.add_sub_cancel_left]

-- The end of an unclosed line, and the end of a text that a newline closes.
example : placeOf ['a', '\n', 'b'] 9 = ⟨2, ['b'], 1⟩ := by decide

example : placeOf ['a', '\n'] 2 = ⟨2, [], 0⟩ := by decide

end Sqf.Text
