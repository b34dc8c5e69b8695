import Sqf.Proofs.Config.Print
import Sqf.Proofs.Config.Enclosed
import Sqf.Proofs.Token.Lines
import Sqf.Proofs.Token.Rescan

/-!
# The tokens of a macro

A macro with arguments in parentheses (`IsCall`) is scanned to the same tokens wherever a blank or
a semicolon is behind it (`IsCall.scanned`). So a property with a macro for its value is scanned to
its name, the sign, the tokens of the macro and a semicolon (`tokens_valued`).
-/

namespace Sqf

/-- The forms of pieces that the arguments of a macro consist of: blanks, directives, and tokens
other than semicolons and curly braces. -/
def Form.isArgument : Form → Bool
  | blank | directive | string _ => true
  | plain kind => kind ∉ [.semicolon, .openCurly, .closeCurly, .endOfInput]
  | _ => false

/-- A name and, in parentheses behind it, the arguments of a macro. Parentheses in the arguments
need not be balanced. -/
structure IsCall (text : List Char) : Prop where
  pieces : ∃ name gap args, IsName name ∧ (∀ p ∈ gap, p.form = .blank) ∧
    (∀ p ∈ args, p.form.isArgument = true) ∧
    pieces text = ⟨.plain (.ofWord (.ofList name)), name⟩ :: gap ++
      ⟨.plain .openParen, ['(']⟩ :: args ++ [⟨.plain .closeParen, [')']⟩]

namespace Piece

open Text (isBlank)

/-! ## Arguments in front of the end of a token -/

/-- A run that ends within a text is the same with more behind the text. -/
theorem run_append_of_lt {p : Char → Bool} {cs : List Char} (h : run p cs < cs.length)
    (rest : List Char) : run p (cs ++ rest) = run p cs := by
  induction cs with
  | nil => cases h
  | cons c cs ih =>
    unfold run at ih h ⊢
    rw [List.cons_append, List.takeWhile_cons, List.takeWhile_cons]
    rw [List.takeWhile_cons] at h
    split
    · next hc =>
      rw [if_pos hc, List.length_cons, List.length_cons] at h
      rw [List.length_cons, List.length_cons, ih (Nat.lt_of_succ_lt_succ h)]
    · rfl

/-- A directive that ends within a text is the same with more behind the text. -/
theorem directiveLength_append_of_lt {line cs : List Char}
    (h : directiveLength line cs < cs.length) (rest : List Char) :
    directiveLength line (cs ++ rest) = directiveLength line cs := by
  -- A directive that ends before the text does is not changed by what is behind the text.
  fun_induction directiveLength line cs with
  | case1 line => cases h
  | case2 line cs hmore ih =>
    rw [List.length_cons] at h
    have hnext : (continues line.reverse && !(cs ++ rest).isEmpty) = true := by
      rw [Bool.and_eq_true] at hmore ⊢
      exact ⟨hmore.1, by cases cs <;> simp_all⟩
    rw [List.cons_append, directiveLength, if_pos rfl, if_pos hnext,
      ih (Nat.lt_of_succ_lt_succ h)]
  | case3 line cs hlast =>
    have hne : cs ≠ [] := by
      rintro rfl
      exact absurd h (Nat.lt_irrefl _)
    have hends : (continues line.reverse && !(cs ++ rest).isEmpty) = false := by
      cases cs <;> simp_all
    rw [List.cons_append, directiveLength, if_pos rfl, hends]
    rfl
  | case4 line c cs hc ih =>
    rw [List.length_cons] at h
    rw [List.cons_append, directiveLength, if_neg hc, ih (Nat.lt_of_succ_lt_succ h)]

/-- The first piece of a text is the same with the end of a token behind the text, if it is a token
or ends within the text. -/
theorem first_append {fresh : Bool} {c : Char} {cs rest : List Char} {form : Form} {n : Nat}
    (hfirst : first fresh c cs = (form, n)) (hform : form.isArgument = true)
    (hends : form.isSettled = true ∨ n < cs.length) (hrest : Follows endsToken rest) :
    first fresh c (cs ++ rest) = (form, n) := by
  by_cases hsettled : form.isSettled = true
  · rw [first_before hrest (by rw [hfirst]; exact hsettled), hfirst]
  -- A blank or a directive: all other forms are settled, or no arguments.
  have hlt := hends.resolve_left hsettled
  obtain ⟨d, ds, rfl⟩ : ∃ d ds, cs = d :: ds :=
    List.exists_cons_of_ne_nil (by rintro rfl; exact absurd hlt (Nat.not_lt_zero _))
  unfold first at hfirst ⊢
  split at hfirst
  · next hblank =>
    cases hfirst
    rw [if_pos hblank, run_append_of_lt hlt]
  next hblank =>
  split at hfirst
  · cases hfirst
    cases hform
  next hline =>
  split at hfirst
  · split at hfirst <;> cases hfirst <;> cases hform
  next hblock =>
  split at hfirst
  · next hhash =>
    split at hfirst
    · next hdirective =>
      cases hfirst
      have hline' : ¬ (c = '/' && ((d :: ds) ++ rest).head? = some '/') = true := hline
      have hblock' : ¬ (c = '/' && ((d :: ds) ++ rest).head? = some '*') = true := hblock
      have hdirective' : (fresh && ((d :: ds) ++ rest).head?.any Char.isAlpha) = true := hdirective
      rw [if_neg hblank, if_neg hline', if_neg hblock', if_pos hhash, if_pos hdirective',
        directiveLength_append_of_lt hlt]
    · cases hfirst
      exact absurd rfl hsettled
  · obtain ⟨form', n', hform', hcases⟩ := firstToken_form c (d :: ds)
    rw [hform'] at hfirst
    cases hfirst
    rcases hcases with hcases | hcases
    · exact absurd hcases hsettled
    · cases form with
      | openComment => cases hform
      | openString => cases hform
      | _ => cases hcases

/-- Arguments that end with a token are scanned by themselves where the end of a token is behind
them. -/
theorem partsAt_arguments {fresh : Bool} {cs rest : List Char}
    (hform : ∀ p ∈ cut fresh cs, p.form.isArgument = true)
    (hlast : ∀ p ∈ (cut fresh cs).getLast?, p.form.isSettled = true)
    (hrest : Follows endsToken rest) : PartsAt fresh cs rest := by
  match cs with
  | [] => exact .nil fresh rest
  | c :: cs =>
    obtain ⟨form, n, hfirst⟩ : ∃ form n, first fresh c cs = (form, n) := ⟨_, _, rfl⟩
    rw [cut_cons hfirst] at hform hlast
    rw [List.forall_mem_cons] at hform
    -- A piece that does not end within the text is the last one.
    have hends : form.isSettled = true ∨ n < cs.length := by
      by_cases hlt : n < cs.length
      · exact .inr hlt
      · have hnil : cut (staysFresh fresh (c :: cs.take n)) (cs.drop n) = [] := by
          rw [List.drop_eq_nil_of_le (Nat.le_of_not_lt hlt), cut]
        rw [hnil] at hlast
        exact .inl (hlast _ rfl)
    refine .of_first hfirst (first_append hfirst hform.1 hends hrest)
      (partsAt_arguments hform.2 (fun p hp => hlast p ?_) hrest)
    rw [List.getLast?_cons, Option.mem_def.1 hp]
    rfl
termination_by cs.length
decreasing_by simp only [List.length_cons, List.length_drop]; omega

/-- Behind a name the line is not blank. -/
theorem staysFresh_name {name : List Char} (h : IsName name) (fresh : Bool) :
    staysFresh fresh name = false := by
  have hother {c : Char} (hc : isNamePart c = true) :
      (c == '\n') = false ∧ (c == ' ') = false ∧ (c == '\t') = false := by
    refine ⟨?_, ?_, ?_⟩ <;> rw [beq_eq_false_iff_ne] <;> rintro rfl <;> cases hc
  have hparts (cs : List Char) (hcs : cs.all isNamePart = true) : staysFresh false cs = false := by
    induction cs with
    | nil => rfl
    | cons c cs ih =>
      rw [List.all_cons, Bool.and_eq_true] at hcs
      have hc := hother hcs.1
      rw [← List.singleton_append, staysFresh_append]
      simpa [staysFresh, hc] using ih hcs.2
  obtain ⟨c, cs, rfl, hstart, hcs⟩ := h.exists_cons
  have hc := hother (isNamePart_of_isNameStart hstart)
  rw [← List.singleton_append, staysFresh_append]
  simpa [staysFresh, hc] using hparts cs hcs

/-- A text that begins with a name is cut in the same way wherever it stands in its line. -/
theorem cut_name {fresh : Bool} {c : Char} {cs : List Char} (hc : isNameStart c = true) :
    cut fresh (c :: cs) = Sqf.pieces (c :: cs) := by
  have hname : IsName (c :: cs.take (run isNamePart cs)) := by
    refine ⟨by simpa using hc, ?_⟩
    rw [List.all_cons, isNamePart_of_isNameStart hc, Bool.true_and]
    exact all_take_run isNamePart cs
  rw [pieces, cut_cons (first_nameStart hc fresh cs), cut_cons (first_nameStart hc true cs),
    staysFresh_name hname, staysFresh_name hname]

end Piece

/-! ## The tokens of a macro -/

namespace IsCall

open Piece (tokens diagnostics cut staysFresh endsToken)

variable {text : List Char}

/-- A macro has no semicolon and no brace. -/
theorem isArgument (h : IsCall text) : ∀ p ∈ Sqf.pieces text, p.form.isArgument = true := by
  obtain ⟨name, gap, args, hname, hgap, hargs, hpieces⟩ := h.pieces
  have hname : (Form.plain (.ofWord (.ofList name))).isArgument = true := by
    have hkind := Kind.isNameKind_ofWord (.ofList name)
    generalize Kind.ofWord (.ofList name) = kind at hkind
    revert hkind
    cases kind <;> decide
  rw [hpieces]
  intro p hp
  simp only [List.mem_cons, List.mem_append, List.not_mem_nil, or_false] at hp
  rcases hp with ((rfl | hp) | rfl | hp) | rfl
  · exact hname
  · rw [hgap p hp]
    rfl
  · rfl
  · exact hargs p hp
  · rfl

/-- It ends with its closing parenthesis. -/
theorem getLast? (h : IsCall text) :
    (Sqf.pieces text).getLast? = some ⟨.plain .closeParen, [')']⟩ := by
  obtain ⟨name, gap, args, -, -, -, hpieces⟩ := h.pieces
  rw [hpieces, List.getLast?_concat]

/-- It starts with a name. -/
theorem exists_cons (h : IsCall text) :
    ∃ c cs, text = c :: cs ∧ Piece.isNameStart c = true := by
  obtain ⟨name, gap, args, hname, -, -, hpieces⟩ := h.pieces
  obtain ⟨c, cs, rfl, hc, -⟩ := hname.exists_cons
  have hflat := flatten_pieces text
  rw [hpieces] at hflat
  exact ⟨c, _, hflat.symm, hc⟩

/-- The text is scanned by itself, and nothing is reported. -/
theorem scanned (h : IsCall text) (fresh : Bool) (start : Nat) {rest : List Char}
    (hrest : Follows endsToken rest) :
    tokens start (cut fresh (text ++ rest)) = tokens start (Sqf.pieces text) ++
        tokens (start + Text.width text) (cut (staysFresh fresh text) rest) ∧
      diagnostics start (cut fresh (text ++ rest)) =
        diagnostics (start + Text.width text) (cut (staysFresh fresh text) rest) := by
  have hnone (ps : List Piece) (hps : ∀ p ∈ ps, p.form.isArgument = true) (start : Nat) :
      diagnostics start ps = [] := by
    induction ps generalizing start with
    | nil => rfl
    | cons p ps ih =>
      rw [List.forall_mem_cons] at hps
      rw [diagnostics, ih hps.2, Piece.diagnostic?]
      generalize p.form = form at hps
      cases form <;> first | rfl | cases hps.1
  obtain ⟨c, cs, rfl, hc⟩ := h.exists_cons
  have hcut : cut fresh (c :: cs) = Sqf.pieces (c :: cs) := Piece.cut_name hc
  -- A parenthesis is a token whatever follows it.
  have hlast : ∀ p ∈ (cut fresh (c :: cs)).getLast?, p.form.isSettled = true := by
    rw [hcut, h.getLast?]
    rintro _ ⟨⟩
    rfl
  obtain ⟨htokens, hdiagnostics⟩ :=
    Piece.partsAt_arguments (by rw [hcut]; exact h.isArgument) hlast hrest start
  rw [hcut] at htokens hdiagnostics
  rw [hnone _ h.isArgument, List.nil_append] at hdiagnostics
  exact ⟨htokens, hdiagnostics⟩

/-- The first token is a name, and the tokens stand over the whole text. -/
theorem tokens_eq (h : IsCall text) (start : Nat) :
    ∃ first others last, tokens start (Sqf.pieces text) = first :: others ++ [last] ∧
      first.kind.isNameKind = true ∧ first.span.start = start ∧
      last.span.stop = start + Text.width text := by
  obtain ⟨name, gap, args, -, -, -, hpieces⟩ := h.pieces
  have hflat := flatten_pieces text
  rw [hpieces] at hflat
  rw [hpieces, Piece.tokens_append]
  refine ⟨_, _, _, rfl, Kind.isNameKind_ofWord _, rfl, ?_⟩
  rw [← hflat]
  simp [Text.width_append, Nat.add_assoc]

/-- Raw text ends at no token of a macro but a comma. -/
theorem kind_of_mem_tokens (h : IsCall text) {start : Nat} {t : Token}
    (ht : t ∈ tokens start (Sqf.pieces text)) (hends : Config.endsWord t.kind = true) :
    t.kind = .comma := by
  have hkinds (kind : Kind) : (Form.plain kind).isArgument = true →
      Config.endsWord kind = true → kind = .comma := by
    cases kind <;> decide
  obtain ⟨front, p, back, hpieces, htoken⟩ := Piece.exists_of_mem_tokens ht
  have hform := h.isArgument p (by rw [hpieces]; simp)
  unfold Piece.token? at htoken
  generalize p.form = form at hform htoken
  cases form with
  | plain kind =>
    cases htoken
    exact hkinds kind hform hends
  | string value =>
    cases htoken
    cases hends
  | openString => cases hform
  | _ => cases htoken

/-- It has a token that is a comma if it has a piece that is one. -/
theorem exists_comma_iff (text : List Char) (start : Nat) :
    (∃ t ∈ tokens start (Sqf.pieces text), t.kind = .comma) ↔
      ∃ p ∈ Sqf.pieces text, p.form = .plain .comma := by
  constructor
  · rintro ⟨t, ht, hkind⟩
    obtain ⟨front, p, back, hpieces, htoken⟩ := Piece.exists_of_mem_tokens ht
    refine ⟨p, by rw [hpieces]; simp, ?_⟩
    unfold Piece.token? at htoken
    generalize p.form = form at htoken
    cases form with
    | plain kind =>
      cases htoken
      rw [show kind = .comma from hkind]
    | string => cases htoken; cases hkind
    | openString => cases htoken; cases hkind
    | _ => cases htoken
  · rintro ⟨p, hp, hform⟩
    obtain ⟨front, back, hpieces⟩ := List.append_of_mem hp
    obtain ⟨t, htoken, hkind⟩ : ∃ t, p.token? (Piece.placeAfter start front) = some t ∧
        t.kind = .comma := by
      rw [Piece.token?, hform]
      exact ⟨_, rfl, rfl⟩
    refine ⟨t, ?_, hkind⟩
    rw [hpieces, Piece.tokens_split, htoken]
    exact List.mem_append_right _ (List.mem_append_left _ (List.mem_singleton.2 rfl))

end IsCall

namespace Config

/-! ## The tokens of a property -/

/-- A property whose value is `core`, with the blanks `lead` and `trail` around it. -/
def valued (name lead core trail : List Char) : List Char :=
  name ++ ' ' :: '=' :: lead ++ core ++ (trail ++ [';'])

section Tokens

open Piece (tokens diagnostics cut staysFresh)

variable {name lead core trail : List Char}

/-- Blanks are scanned to nothing. -/
theorem scans_blanks {bs : List Char} (h : ∀ b ∈ bs, Text.isBlank b = true) :
    Scans anything bs [] := by
  induction bs with
  | nil => exact Scans.nil
  | cons b bs ih =>
    rw [List.forall_mem_cons] at h
    exact scans_blank h.1 (ih h.2)

/-- The name and the sign of a property are scanned up to its value. -/
theorem scans_sign (hname : IsName name) (hlead : ∀ b ∈ lead, Text.isBlank b = true) :
    Scans (· != '=') (name ++ ' ' :: '=' :: lead)
      [Lexemes.name (.ofList name), ⟨.assignment, "="⟩] := by
  have hblanks : Scans (· != '=') lead [] := (scans_blanks hlead).mono fun _ _ => rfl
  have hsign : Scans (· != '=') (['='] ++ lead) ([⟨.assignment, "="⟩] ++ []) := by
    refine Scans.equals.append hblanks fun rest hrest => ?_
    cases lead with
    | nil => exact hrest
    | cons b bs =>
      rw [List.cons_append, follows_cons, bne_iff_ne]
      rintro rfl
      exact absurd (hlead '=' List.mem_cons_self) (by decide)
  have hnamed : Scans endsName name [Lexemes.name (.ofList name)] := Scans.name hname
  exact hnamed.append_cons (scans_blank (b := ' ') rfl hsign) rfl

/-- So is what follows the value. -/
theorem scans_stop (htrail : ∀ b ∈ trail, Text.isBlank b = true) :
    Scans anything (trail ++ [';']) [Lexemes.semicolon] :=
  (scans_blanks htrail).before semicolon_scans

/-- A property whose value is a macro is scanned to its name, the sign, the tokens of the macro and
a semicolon. -/
theorem tokens_valued (hname : IsName name) (hlead : ∀ b ∈ lead, Text.isBlank b = true)
    (hcall : IsCall core) (htrail : ∀ b ∈ trail, Text.isBlank b = true) (fresh : Bool)
    (start : Nat) (after : List Char) :
    ∃ word sign stop, word.lexeme = Lexemes.name (.ofList name) ∧ sign.kind = .assignment ∧
      stop.kind = .semicolon ∧
      tokens start (cut fresh (valued name lead core trail ++ after)) =
        word :: sign :: (tokens (start + Text.width (name ++ ' ' :: '=' :: lead)) (pieces core) ++
          stop :: tokens (start + Text.width (valued name lead core trail))
            (cut (staysFresh fresh (valued name lead core trail)) after)) ∧
      diagnostics start (cut fresh (valued name lead core trail ++ after)) =
        diagnostics (start + Text.width (valued name lead core trail))
          (cut (staysFresh fresh (valued name lead core trail)) after) := by
  -- The text is cut before the macro and behind it; what is behind each part keeps it apart.
  obtain ⟨c, cs, hcons, hc⟩ := hcall.exists_cons
  have hfollows : Follows (· != '=') (core ++ (trail ++ [';'] ++ after)) := by
    rw [hcons, List.cons_append, follows_cons, bne_iff_ne]
    rintro rfl
    cases hc
  have hends : Follows Piece.endsToken (trail ++ [';'] ++ after) := by
    cases trail with
    | nil => exact follows_cons.2 rfl
    | cons b bs =>
      rw [List.cons_append, List.cons_append, follows_cons, Piece.endsToken,
        htrail b List.mem_cons_self]
      rfl
  obtain ⟨ts, hts, htokens, hdiagnostics⟩ := scans_sign hname hlead fresh start _ hfollows
  obtain ⟨word, ts, rfl, hword, hts⟩ := List.map_eq_cons_iff.1 hts
  obtain ⟨sign, ts, rfl, hsign, hts⟩ := List.map_eq_cons_iff.1 hts
  obtain rfl : ts = [] := List.map_eq_nil_iff.1 hts
  obtain ⟨htokens', hdiagnostics'⟩ := hcall.scanned
    (staysFresh fresh (name ++ ' ' :: '=' :: lead))
    (start + Text.width (name ++ ' ' :: '=' :: lead)) hends
  obtain ⟨us, hus, htokens'', hdiagnostics''⟩ := scans_stop htrail
    (staysFresh (staysFresh fresh (name ++ ' ' :: '=' :: lead)) core)
    (start + Text.width (name ++ ' ' :: '=' :: lead) + Text.width core) after (follows_anything _)
  obtain ⟨stop, us, rfl, hstop, hus⟩ := List.map_eq_cons_iff.1 hus
  obtain rfl : us = [] := List.map_eq_nil_iff.1 hus
  have htext : valued name lead core trail ++ after =
      name ++ ' ' :: '=' :: lead ++ (core ++ (trail ++ [';'] ++ after)) := by
    simp [valued]
  have hwidth : start + Text.width (valued name lead core trail) =
      start + Text.width (name ++ ' ' :: '=' :: lead) + Text.width core +
        Text.width (trail ++ [';']) := by
    rw [valued, Text.width_append, Text.width_append]
    omega
  have hfresh : staysFresh fresh (valued name lead core trail) =
      staysFresh (staysFresh (staysFresh fresh (name ++ ' ' :: '=' :: lead)) core)
        (trail ++ [';']) := by
    rw [valued, Piece.staysFresh_append fresh _ (trail ++ [';']),
      Piece.staysFresh_append fresh _ core]
  refine ⟨word, sign, stop, hword, congrArg Lexeme.kind hsign, congrArg Lexeme.kind hstop, ?_, ?_⟩
  · rw [htext, htokens, htokens', htokens'', hwidth, hfresh]
    rfl
  · rw [htext, hdiagnostics, hdiagnostics', hdiagnostics'', hwidth, hfresh]

end Tokens

end Config

end Sqf
