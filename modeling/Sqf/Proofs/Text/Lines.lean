import Mathlib.Data.List.Basic
import Sqf.Text.Line

/-!
# Lines of a text

A text falls into lines, of which each but the last has a newline at its end and nowhere else
(`LineOf`). `placeOf` finds the line that an offset is in, with its number and the offset of its
start (`exists_lineOf`).
-/

namespace Sqf.Text

/-- The text has the line `line`, with the lines `above` before it and the lines `below` behind. -/
structure LineOf (text above line below : List Char) : Prop where
  eq : text = above ++ line ++ below
  above_ends : above = [] ∨ above.getLast? = some '\n'
  ne_nil : line ≠ []
  newline_not_mem : '\n' ∉ line.dropLast
  ends : below = [] ∨ line.getLast? = some '\n'

variable {text above line below : List Char}

/-- A text that is not empty has a first line. -/
theorem exists_first_line (h : text ≠ []) : ∃ line below, LineOf text [] line below := by
  induction text with
  | nil => exact absurd rfl h
  | cons c cs ih =>
    by_cases hc : c = '\n'
    · subst hc
      exact ⟨['\n'], cs, rfl, .inl rfl, by simp, by simp, .inr rfl⟩
    by_cases hcs : cs = []
    · subst hcs
      exact ⟨[c], [], rfl, .inl rfl, by simp, by simp, .inl rfl⟩
    obtain ⟨line, below, hline⟩ := ih hcs
    obtain ⟨d, ds, rfl⟩ := List.exists_cons_of_ne_nil hline.ne_nil
    refine ⟨c :: d :: ds, below, by rw [hline.eq]; rfl, .inl rfl, by simp, ?_, ?_⟩
    · rw [List.dropLast_cons_cons, List.mem_cons]
      rintro (rfl | hmem)
      · exact hc rfl
      · exact hline.newline_not_mem hmem
    · rw [List.getLast?_cons_cons]
      exact hline.ends

/-- Cutting into lines takes off the first one. -/
theorem LineOf.lines_eq (h : LineOf text [] line below) : lines text = line :: lines below := by
  rw [h.eq, List.nil_append]
  have hne := h.ne_nil
  have hnewline := h.newline_not_mem
  have hends := h.ends
  clear h
  induction line with
  | nil => exact absurd rfl hne
  | cons c cs ih =>
    cases cs with
    | nil =>
      rcases hends with rfl | hlast
      · by_cases hc : c = '\n' <;> simp [lines, hc]
      · obtain rfl : c = '\n' := by simpa using hlast
        simp [lines]
    | cons d ds =>
      rw [List.dropLast_cons_cons, List.mem_cons, not_or] at hnewline
      rw [List.getLast?_cons_cons] at hends
      have hrest := ih (by simp) hnewline.2 hends
      rw [List.cons_append, lines, if_neg (Ne.symm hnewline.1), hrest]

/-- The line that an offset is in, of lines that are numbered from `number` on. -/
theorem exists_placeIn (text : List Char) (number : Nat) {offset : Nat}
    (h : offset < width text) :
    ∃ above line below, LineOf text above line below ∧ width above ≤ offset ∧
      offset < width (above ++ line) ∧
      placeIn number (lines text) offset =
        ⟨number + above.count '\n', line, offset - width above⟩ := by
  have hne : text ≠ [] := by
    rintro rfl
    exact absurd h (Nat.not_lt_zero _)
  obtain ⟨first, rest, hfirst⟩ := exists_first_line hne
  rw [hfirst.lines_eq]
  by_cases hin : offset < width first
  · refine ⟨[], first, rest, hfirst, Nat.zero_le _, hin, ?_⟩
    cases lines rest <;> simp [placeIn, hin]
  -- The offset is behind the first line, so there are more.
  have hwidth : width text = width first + width rest := by
    rw [hfirst.eq, List.nil_append, width_append]
  have hrest : offset - width first < width rest := by omega
  obtain ⟨above, line, below, hline, hle, hlt, hplace⟩ := exists_placeIn rest (number + 1) hrest
  have hlast : first.getLast? = some '\n' := by
    refine hfirst.ends.resolve_left ?_
    rintro rfl
    exact absurd hrest (Nat.not_lt_zero _)
  have hone : first.count '\n' = 1 := by
    have hsplit := List.dropLast_append_getLast? '\n' hlast
    rw [← hsplit, List.count_append, List.count_eq_zero.2 hfirst.newline_not_mem]
    rfl
  refine ⟨first ++ above, line, below, ⟨?_, ?_, hline.ne_nil, hline.newline_not_mem, hline.ends⟩,
    ?_, ?_, ?_⟩
  · rw [hfirst.eq, hline.eq]
    simp
  · right
    rcases hline.above_ends with rfl | hends
    · rwa [List.append_nil]
    · rw [List.getLast?_append, hends]
      rfl
  · rw [width_append]
    omega
  · rw [List.append_assoc, width_append]
    omega
  · obtain ⟨second, others, hcons⟩ : ∃ second others, lines rest = second :: others := by
      have hrestNe : rest ≠ [] := by
        rintro rfl
        exact absurd hrest (Nat.not_lt_zero _)
      obtain ⟨second, behind, hsecond⟩ := exists_first_line hrestNe
      exact ⟨second, lines behind, hsecond.lines_eq⟩
    rw [hcons] at hplace ⊢
    rw [placeIn, if_neg hin, hplace, List.count_append, hone, width_append]
    · simp only [Place.mk.injEq, true_and]
      omega
    · simp
termination_by text.length
decreasing_by
  have hlength : text.length = first.length + rest.length := by
    rw [hfirst.eq, List.nil_append, List.length_append]
  have hpos := List.length_pos_iff.2 hfirst.ne_nil
  omega

/-- An offset in a text is in the line that has one newline before it for each line above. -/
theorem exists_lineOf {offset : Nat} (h : offset < width text) :
    ∃ above line below, LineOf text above line below ∧ width above ≤ offset ∧
      offset < width (above ++ line) ∧
      placeOf text offset = ⟨1 + above.count '\n', line, offset - width above⟩ :=
  exists_placeIn text 1 h

end Sqf.Text
