import Mathlib.Data.List.Induction
import Mathlib.Data.List.TakeWhile
import Sqf.Token.Scan

/-!
# What the pieces of a text look like

The scanner says of every piece what it is. Here it is said of the characters
themselves, without the functions that measure them: blanks, comments and
directives are `Skipped` where they stand, strings are their value between quotes
with the quotes in it doubled. `Piece.shape_of_cut` shows that the pieces of a text
have the shape that their form claims.
-/

namespace Sqf

namespace Text

/-- The text with every quote written twice. -/
def doubled (quote : Char) (value : List Char) : List Char :=
  value.flatMap fun c => if c = quote then [c, c] else [c]

/-- Behind the last newline there are only spaces and tabs. -/
def EndsFresh (before : List Char) : Prop :=
  ∃ front line, before = front ++ line ∧ (front = [] ∨ front.getLast? = some '\n') ∧
    ∀ c ∈ line, c = ' ' ∨ c = '\t'

/-- The text ends with a backslash, blanks aside, so it goes on behind the newline. -/
def Continues (line : List Char) : Prop := (trimRight line).getLast? = some '\\'

instance (line : List Char) : Decidable (Continues line) :=
  inferInstanceAs (Decidable (_ = _))

/-- Lines of which each goes on in the next one, up to the first that does not or to the end of
the text. -/
inductive ContinuedLines (after : List Char) : List Char → Prop
  | toEnd {line : List Char} (h : '\n' ∉ line) (hafter : after = []) : ContinuedLines after line
  | last {line : List Char} (h : '\n' ∉ line) (hlast : ¬ Continues line ∨ after = []) :
    ContinuedLines after (line ++ ['\n'])
  | next {line others : List Char} (h : '\n' ∉ line) (hnext : Continues line)
    (hothers : ContinuedLines after others) : ContinuedLines after (line ++ '\n' :: others)

/-- A stretch of text that is no token and nothing wrong either, with the text before and
behind it. -/
inductive Skipped (before text after : List Char) : Prop
  | blanks (h : ∀ c ∈ text, isBlank c = true)
  | lineComment {line : List Char} (htext : text = '/' :: '/' :: line) (h : '\n' ∉ line)
    (hafter : after = [] ∨ after.head? = some '\n')
  /-- The first closing mark ends a block comment. -/
  | blockComment {body : List Char} (htext : text = '/' :: '*' :: (body ++ ['*', '/']))
    (h : ¬ ['*', '/'] <:+: body ++ ['*'])
  | openComment {body : List Char} (htext : text = '/' :: '*' :: body)
    (h : ¬ ['*', '/'] <:+: body) (hafter : after = [])
  | directive {letter : Char} {others : List Char} (hbefore : EndsFresh before)
    (htext : text = '#' :: letter :: others) (hletter : letter.isAlpha = true)
    (h : ContinuedLines after text)

/-! ## Measuring -/

theorem take_run (p : Char → Bool) (cs : List Char) :
    cs.take (Piece.run p cs) = cs.takeWhile p := by
  rw [Piece.run]
  exact (List.prefix_iff_eq_take.1 (List.takeWhile_prefix p)).symm

theorem drop_run (p : Char → Bool) (cs : List Char) :
    cs.drop (Piece.run p cs) = cs.dropWhile p := by
  induction cs with
  | nil => rfl
  | cons c cs ih =>
    by_cases h : p c = true
    · simpa [Piece.run, h] using ih
    · simp [Piece.run, h]

/-- A line goes up to a newline or to the end of the text. -/
theorem run_line (cs : List Char) :
    '\n' ∉ cs.take (Piece.run (· ≠ '\n') cs) ∧
      (cs.drop (Piece.run (· ≠ '\n') cs) = [] ∨
        (cs.drop (Piece.run (· ≠ '\n') cs)).head? = some '\n') := by
  rw [take_run, drop_run]
  constructor
  · intro hmem
    simpa using List.mem_takeWhile_imp hmem
  · have hnot := List.head?_dropWhile_not (fun d : Char => decide (d ≠ '\n')) cs
    cases hrest : cs.dropWhile (fun d => decide (d ≠ '\n')) with
    | nil => exact .inl rfl
    | cons d ds =>
      rw [hrest] at hnot
      exact .inr (by simpa using hnot)

/-- A comment ends behind the first closing mark. -/
theorem commentLength?_some {cs : List Char} {n : Nat} (h : Piece.commentLength? cs = some n) :
    ∃ body, cs.take n = body ++ ['*', '/'] ∧ ¬ ['*', '/'] <:+: body ++ ['*'] := by
  fun_induction Piece.commentLength? cs generalizing n with
  | case1 => cases h
  | case2 => cases h
  | case3 c d cs hmark =>
    simp only [Bool.and_eq_true, decide_eq_true_eq] at hmark
    rcases hmark with ⟨rfl, rfl⟩
    cases h
    exact ⟨[], rfl, by decide⟩
  | case4 c d cs hmark ih =>
    rcases Option.map_eq_some_iff.1 h with ⟨m, hm, rfl⟩
    rcases ih hm with ⟨body, htake, hbody⟩
    refine ⟨c :: body, by rw [List.take_succ_cons, htake, List.cons_append], ?_⟩
    rw [List.cons_append, List.infix_cons_iff, not_or]
    refine ⟨?_, hbody⟩
    -- The character behind `c` is `d`, also where the closing mark follows at once.
    intro hprefix
    rcases List.prefix_cons_iff.1 hprefix with hnil | ⟨others, hothers, hrest⟩
    · cases hnil
    rcases List.cons.inj hothers with ⟨rfl, rfl⟩
    have hd : ∃ rest, body ++ ['*'] = d :: rest := by
      cases m with
      | zero => cases body <;> cases htake
      | succ m =>
        rw [List.take_succ_cons] at htake
        cases body with
        | nil => exact ⟨[], by rw [(List.cons.inj htake).1]; rfl⟩
        | cons b body => exact ⟨body ++ ['*'], by rw [(List.cons.inj htake).1]; rfl⟩
    rcases hd with ⟨rest, hd⟩
    rw [hd, List.cons_prefix_cons] at hrest
    exact hmark (by simp [← hrest.1])

/-- A comment that is not closed has no end in what is left. -/
theorem commentLength?_none {cs : List Char} (h : Piece.commentLength? cs = none) :
    ¬ ['*', '/'] <:+: cs := by
  fun_induction Piece.commentLength? cs with
  | case1 => simp
  | case2 c =>
    intro hinfix
    exact absurd hinfix.length_le (by simp)
  | case3 c d cs hmark => cases h
  | case4 c d cs hmark ih =>
    rw [List.infix_cons_iff, not_or]
    refine ⟨?_, ih (Option.map_eq_none_iff.1 h)⟩
    intro hprefix
    rw [List.cons_prefix_cons, List.cons_prefix_cons] at hprefix
    exact hmark (by simp [← hprefix.1, ← hprefix.2.1])

/-- A directive takes its line and those it continues to. The characters of the current line
that were read before are in `line`, last one first. -/
theorem directiveLength_lines (line cs : List Char) (h : '\n' ∉ line) :
    ContinuedLines (cs.drop (Piece.directiveLength line cs))
      (line.reverse ++ cs.take (Piece.directiveLength line cs)) := by
  have hline : '\n' ∉ line.reverse := by simpa using h
  fun_induction Piece.directiveLength line cs with
  | case1 line => simpa using ContinuedLines.toEnd hline rfl
  | case2 line cs hmore ih =>
    simp only [Bool.and_eq_true] at hmore
    have hnext : Continues line.reverse := by simpa [Piece.continues, Continues] using hmore.1
    exact .next hline hnext (by simpa using ih (by simp) (by simp))
  | case3 line cs hlast =>
    refine .last hline ?_
    by_cases hcs : cs = []
    · exact .inr (by simp [hcs])
    · left
      intro hcontinues
      exact hlast (by simp [Piece.continues, show _ = _ from hcontinues, hcs])
  | case4 line c cs hc ih =>
    have hmem : '\n' ∉ c :: line := by simp [h, Ne.symm hc]
    simpa using ih hmem (by rwa [List.mem_reverse])

/-- What is read of a string is its value with the quotes doubled, and the closing quote if it
is there; otherwise all of the text is read. -/
theorem stringBody_spelled {quote : Char} {cs value : List Char} {n : Nat} {closed : Bool}
    (h : Piece.stringBody quote cs = (value, n, closed)) :
    cs.take n = doubled quote value ++ (if closed then [quote] else []) ∧
      (closed = false → cs.drop n = []) := by
  fun_induction Piece.stringBody quote cs generalizing value n closed with
  | case1 => cases h; exact ⟨rfl, fun _ => rfl⟩
  | case2 ds value' n' closed' hbody ih =>
    cases h
    simpa [doubled] using ih hbody
  | case3 d ds hd => cases h; simp [doubled]
  | case4 => cases h; simp [doubled]
  | case5 c cs hc value' n' closed' hbody ih =>
    cases h
    simpa [doubled, hc] using ih hbody

end Text

namespace Piece

open Text (Skipped doubled)

/-! ## The shape of each form -/

/-- What a form says of the characters of a piece and of the text around it. -/
def Shape (before text after : List Char) : Form → Prop
  | .plain kind => kind ≠ .string ∧ kind ≠ .endOfInput
  | .string value => ∃ quote, (quote = '"' ∨ quote = '\'') ∧
    text = quote :: (doubled quote value ++ [quote])
  | .openString value => ∃ quote, (quote = '"' ∨ quote = '\'') ∧
    text = quote :: doubled quote value ∧ after = []
  | .unrecognised => ∃ c, text = [c]
  | .blank | .lineComment | .blockComment | .openComment | .directive =>
    Skipped before text after

/-- What holds of the kind of names and of those of the keywords holds of the kind of every word. -/
theorem ofWord_induction {P : Kind → Prop} (name : P .identifier)
    (keyword : ∀ entry ∈ Kind.keywords, P entry.2) (word : String) : P (Kind.ofWord word) := by
  unfold Kind.ofWord
  cases h : Kind.keywords.lookup word.toLower with
  | none => exact name
  | some kind =>
    rcases List.lookup_eq_some_iff.1 h with ⟨front, back, hentries, _⟩
    exact keyword (word.toLower, kind) (by rw [hentries]; simp)

/-- A word is neither a string nor the end. -/
theorem ofWord_ne (word : String) :
    Kind.ofWord word ≠ .string ∧ Kind.ofWord word ≠ .endOfInput :=
  ofWord_induction (P := fun kind => kind ≠ .string ∧ kind ≠ .endOfInput) (by decide) (by decide)
    word

/-- Nor is a symbol. -/
theorem symbol?_ne {c : Char} {rest : List Char} {kind : Kind} {n : Nat}
    (h : symbol? c rest = some (kind, n)) : kind ≠ .string ∧ kind ≠ .endOfInput := by
  unfold symbol? at h
  split at h <;> first | cases h; decide | cases h

/-- The shape of a piece that starts with `c` and takes some characters of `rest`. -/
def ShapeFrom (before : List Char) (c : Char) (rest : List Char) (found : Form × Nat) : Prop :=
  Shape before (c :: rest.take found.2) (rest.drop found.2) found.1

/-- Every token has the shape that its form claims. -/
theorem firstToken_shape (before : List Char) (c : Char) (rest : List Char) :
    ShapeFrom before c rest (firstToken c rest) := by
  unfold firstToken
  generalize hexLength (c :: rest) = hex
  simp only
  generalize (if hex = 0 then decimalLength (c :: rest) else hex) = number
  split
  · exact ⟨by decide, by decide⟩
  split
  · exact ofWord_ne _
  split
  · next hquote =>
    simp only [Bool.or_eq_true, decide_eq_true_eq] at hquote
    -- The quote that opens the string decides how its body is read.
    split
    · next value n hbody =>
      rcases Text.stringBody_spelled hbody with ⟨htake, _⟩
      exact ⟨c, hquote, by rw [htake, if_pos rfl]⟩
    · next value n hbody =>
      rcases Text.stringBody_spelled hbody with ⟨htake, hdrop⟩
      exact ⟨c, hquote, by rw [htake, if_neg (by decide), List.append_nil], hdrop rfl⟩
  · split
    · next kind n hsymbol => exact symbol?_ne hsymbol
    · exact ⟨c, rfl⟩

/-- So has every piece. -/
theorem first_shape {fresh : Bool} {before : List Char}
    (hfresh : fresh = true → Text.EndsFresh before) (c : Char) (rest : List Char) :
    ShapeFrom before c rest (first fresh c rest) := by
  unfold first
  split
  · next hblank =>
    refine Skipped.blanks ?_
    rw [Text.take_run]
    intro d hd
    rcases List.mem_cons.1 hd with rfl | hd
    · exact hblank
    · exact List.mem_takeWhile_imp hd
  split
  · next hline =>
    simp only [Bool.and_eq_true, decide_eq_true_eq] at hline
    rcases hline with ⟨rfl, hhead⟩
    rcases List.head?_eq_some_iff.1 hhead with ⟨line, rfl⟩
    rcases Text.run_line line with ⟨hmem, hafter⟩
    have hrun : run (· ≠ '\n') ('/' :: line) = run (· ≠ '\n') line + 1 := by
      simp [run]
    rw [hrun]
    exact Skipped.lineComment rfl hmem hafter
  split
  · next hblock =>
    simp only [Bool.and_eq_true, decide_eq_true_eq] at hblock
    rcases hblock with ⟨rfl, hhead⟩
    rcases List.head?_eq_some_iff.1 hhead with ⟨body, rfl⟩
    split
    · next n hlength =>
      rcases Text.commentLength?_some hlength with ⟨inner, htake, hinner⟩
      refine Skipped.blockComment ?_ hinner
      rw [List.take_succ_cons, ← htake]
      rfl
    · next hlength =>
      have hopen : ¬ ['*', '/'] <:+: body := Text.commentLength?_none hlength
      exact Skipped.openComment (by simp) hopen (by simp)
  split
  · next hhash =>
    subst hhash
    split
    · next hdirective =>
      simp only [Bool.and_eq_true, Option.any_eq_true] at hdirective
      rcases hdirective with ⟨hnew, letter, hhead, hletter⟩
      rcases List.head?_eq_some_iff.1 hhead with ⟨others, rfl⟩
      have hne : letter ≠ '\n' := by rintro rfl; cases hletter
      have hlength : directiveLength ['#'] (letter :: others) =
          directiveLength [letter, '#'] others + 1 := by
        rw [directiveLength, if_neg hne]
      -- A directive goes on over the lines that are continued.
      have hlines := Text.directiveLength_lines ['#'] (letter :: others) (by decide)
      have htext : '#' :: (letter :: others).take (directiveLength ['#'] (letter :: others)) =
          '#' :: letter :: others.take (directiveLength [letter, '#'] others) := by
        rw [hlength, List.take_succ_cons]
      exact Skipped.directive (hfresh hnew) htext hletter hlines
    · exact ⟨by decide, by decide⟩
  · exact firstToken_shape before c rest

/-! ## The pieces of a text -/

theorem staysFresh_append (fresh : Bool) (xs ys : List Char) :
    staysFresh fresh (xs ++ ys) = staysFresh (staysFresh fresh xs) ys := by
  simp [staysFresh]

/-- A line is still blank where there are only spaces and tabs behind its start. -/
theorem endsFresh_of_staysFresh {before : List Char} (h : staysFresh true before = true) :
    Text.EndsFresh before := by
  induction before using List.reverseRecOn with
  | nil => exact ⟨[], [], rfl, .inl rfl, by simp⟩
  | append_singleton xs c ih =>
    rw [staysFresh_append] at h
    simp only [staysFresh, List.foldl_cons, List.foldl_nil, Bool.or_eq_true, beq_iff_eq,
      Bool.and_eq_true] at h
    rcases h with rfl | ⟨hxs, hc⟩
    · exact ⟨xs ++ ['\n'], [], by simp, .inr (by simp), by simp⟩
    · rcases ih hxs with ⟨front, line, rfl, hfront, hline⟩
      refine ⟨front, line ++ [c], by simp, hfront, ?_⟩
      intro d hd
      rcases List.mem_append.1 hd with hd | hd
      · exact hline d hd
      · rw [List.mem_singleton] at hd
        exact hd ▸ hc

/-- Each piece is the first one of what the pieces before it leave. -/
theorem first_of_cut {fresh : Bool} {cs : List Char} {front back : List Piece} {p : Piece}
    (h : cut fresh cs = front ++ p :: back) :
    ∃ c rest, (first (staysFresh fresh (front.map text).flatten) c rest).1 = p.form ∧
      c :: rest.take (first (staysFresh fresh (front.map text).flatten) c rest).2 = p.text ∧
      rest.drop (first (staysFresh fresh (front.map text).flatten) c rest).2 =
        (back.map text).flatten := by
  fun_induction cut fresh cs generalizing front with
  | case1 => cases front <;> cases h
  | case2 fresh c rest form n hfirst taken =>
    rename_i ih
    cases front with
    | nil =>
      rcases List.cons.inj h with ⟨rfl, rfl⟩
      refine ⟨c, rest, ?_⟩
      have hfirst' : first (staysFresh fresh (([] : List Piece).map text).flatten) c rest =
          (form, n) := hfirst
      rw [hfirst']
      exact ⟨rfl, rfl, (flatten_cut _ _).symm⟩
    | cons q front =>
      rcases List.cons.inj h with ⟨rfl, hrest⟩
      simpa [staysFresh_append] using ih hrest

/-- The pieces of a text have the shape of their form. -/
theorem shape_of_cut {cs : List Char} {front back : List Piece} {p : Piece}
    (h : cut true cs = front ++ p :: back) :
    Shape (front.map text).flatten p.text (back.map text).flatten p.form := by
  rcases first_of_cut h with ⟨c, rest, hform, htext, hafter⟩
  rw [← hform, ← htext, ← hafter]
  exact first_shape (fun hfresh => endsFresh_of_staysFresh hfresh) c rest

end Piece

end Sqf
