import Mathlib.Data.Fintype.Basic
import Mathlib.Data.List.TakeWhile
import Sqf.Numeral
import Sqf.Proofs.Tree.Recast
import Sqf.Token.Scan

/-!
# Capital letters in a source text

A text in lower case falls into the same pieces as the text itself. No test that
decides where a piece ends tells a capital letter from a small one, keywords are
looked up in lower case, and a number is read the same. So the tokens stand at
the same places, with their texts in lower case (`scan_toLower`).
-/

namespace Sqf

namespace Recast

/-- Turns all texts to lower case. -/
def lowered : Recast := { text := String.toLower }

end Recast

/-! ## Characters -/

namespace Text

/-- A capital letter. -/
def capital (n : Fin 26) : Char := Char.ofNat (65 + n)

/-- Only capital letters change. -/
theorem toLower_cases (c : Char) : c.toLower = c ∨ ∃ n, c = capital n := by
  by_cases h : c.val ≥ 'A'.val ∧ c.val ≤ 'Z'.val
  · right
    rcases h with ⟨hlow, hhigh⟩
    simp only [ge_iff_le, UInt32.le_iff_toNat_le] at hlow hhigh
    have hA : 65 ≤ c.toNat := hlow
    have hZ : c.toNat ≤ 90 := hhigh
    refine ⟨⟨c.toNat - 65, by omega⟩, ?_⟩
    show c = Char.ofNat (65 + (c.toNat - 65))
    rw [Nat.add_sub_cancel' hA, Char.ofNat_toNat]
  · left
    unfold Char.toLower
    rw [dif_neg h]

/-- A function that takes small and capital letters alike need only be tried on the capital ones. -/
theorem congr_toLower {f : Char → α} (h : ∀ n, f (capital n).toLower = f (capital n)) (c : Char) :
    f c.toLower = f c := by
  rcases toLower_cases c with hsame | ⟨n, rfl⟩
  · rw [hsame]
  · exact h n

/-- Lowering a letter twice is lowering it once. -/
theorem toLower_toLower (c : Char) : c.toLower.toLower = c.toLower :=
  congr_toLower (f := Char.toLower) (by decide) c

/-- Letters are no blanks, so blanks stay and none are added. -/
theorem isBlank_toLower (c : Char) : isBlank c.toLower = isBlank c := congr_toLower (by decide) c

/-- A letter stays a letter. -/
theorem isAlpha_toLower (c : Char) : c.toLower.isAlpha = c.isAlpha :=
  congr_toLower (f := Char.isAlpha) (by decide) c

/-- Digits stay, and no letter becomes one. -/
theorem isDigit_toLower (c : Char) : c.toLower.isDigit = c.isDigit :=
  congr_toLower (f := Char.isDigit) (by decide) c

/-- Hexadecimal digits have their value in both cases. -/
theorem hexValue?_toLower (c : Char) : hexValue? c.toLower = hexValue? c :=
  congr_toLower (by decide) c

/-- A letter and its small form take the same room, which keeps all offsets. -/
theorem utf8Size_toLower (c : Char) : c.toLower.utf8Size = c.utf8Size :=
  congr_toLower (f := Char.utf8Size) (by decide) c

/-- An exponent is marked by `e` in either case. -/
theorem exponentMark_toLower (c : Char) :
    (c.toLower = 'e' || c.toLower = 'E') = (c = 'e' || c = 'E') :=
  congr_toLower (f := fun c => decide (c = 'e') || decide (c = 'E')) (by decide) c

/-- A hexadecimal number is marked by `x` in either case. -/
theorem hexMark_toLower (c : Char) :
    (c.toLower = 'x' || c.toLower = 'X') = (c = 'x' || c = 'X') :=
  congr_toLower (f := fun c => decide (c = 'x') || decide (c = 'X')) (by decide) c

theorem isAlpha_capital (n : Fin 26) : (capital n).isAlpha = true := by
  revert n
  decide

/-- A character that is no letter does not change. -/
theorem toLower_of_not_isAlpha {c : Char} (h : c.isAlpha = false) : c.toLower = c := by
  rcases toLower_cases c with hsame | ⟨n, rfl⟩
  · exact hsame
  · rw [isAlpha_capital] at h
    cases h

/-- A character that is no letter comes from nothing but itself. -/
theorem toLower_eq_iff {c d : Char} (hd : d.isAlpha = false) : c.toLower = d ↔ c = d := by
  constructor
  · rintro rfl
    rw [isAlpha_toLower] at hd
    exact (toLower_of_not_isAlpha hd).symm
  · rintro rfl
    exact toLower_of_not_isAlpha hd

theorem toLower_of_isDigit {c : Char} (h : c.isDigit = true) : c.toLower = c := by
  rcases toLower_cases c with hsame | ⟨n, rfl⟩
  · exact hsame
  · revert n
    decide

/-- A text and its lower case have the same width in bytes. -/
theorem width_map_toLower (cs : List Char) : width (cs.map Char.toLower) = width cs := by
  induction cs with
  | nil => rfl
  | cons c cs ih => rw [List.map_cons, width_cons, width_cons, ih, utf8Size_toLower]

/-- The blanks at the end are trimmed in both texts. -/
theorem trimRight_map_toLower (cs : List Char) :
    trimRight (cs.map Char.toLower) = (trimRight cs).map Char.toLower := by
  induction cs with
  | nil => rfl
  | cons c cs ih =>
    rw [List.map_cons, trimRight, trimRight, ih]
    cases trimRight cs with
    | nil =>
      simp only [List.map_nil, isBlank_toLower]
      split <;> rfl
    | cons d ds => rfl

theorem toList_toLower (text : String) : text.toLower.toList = text.toList.map Char.toLower :=
  String.toList_map

theorem ofList_toLower (cs : List Char) :
    (String.ofList cs).toLower = String.ofList (cs.map Char.toLower) := by
  rw [← String.toList_inj, toList_toLower, String.toList_ofList, String.toList_ofList]

theorem toLower_idem (text : String) : text.toLower.toLower = text.toLower := by
  rw [← String.toList_inj, toList_toLower, toList_toLower, List.map_map]
  exact List.map_congr_left fun c _ => toLower_toLower c

end Text

/-- Whether a name is one of a local variable is seen from its underscore. -/
theorem isLocalName_toLower (name : String) : isLocalName name.toLower = isLocalName name := by
  unfold isLocalName
  rw [Text.toList_toLower, List.head?_map]
  cases name.toList.head? with
  | none => rfl
  | some c =>
    rw [Option.map_some, Bool.eq_iff_iff, beq_iff_eq, beq_iff_eq, Option.some_inj, Option.some_inj,
      Text.toLower_eq_iff rfl]

/-! ## Numerals -/

namespace Numeral

open Text (toLower_eq_iff isDigit_toLower hexValue?_toLower toLower_of_isDigit)

/-- Hexadecimal digits are read the same in lower case, from any value on. -/
theorem hexFrom?_map_toLower (n : Nat) (cs : List Char) :
    hexFrom? n (cs.map Char.toLower) = hexFrom? n cs := by
  induction cs generalizing n with
  | nil => rfl
  | cons c cs ih =>
    rw [List.map_cons, hexFrom?, hexFrom?, hexValue?_toLower]
    cases Text.hexValue? c with
    | none => rfl
    | some d => exact ih _

/-- The sign of a text and what follows it do not depend on the case of letters. -/
theorem splitSign_map_toLower (cs : List Char) :
    splitSign (cs.map Char.toLower) = ((splitSign cs).1, (splitSign cs).2.map Char.toLower) := by
  rcases cs with _ | ⟨c, cs⟩
  · rfl
  · have hminus := toLower_eq_iff (c := c) (d := '-') rfl
    have hplus := toLower_eq_iff (c := c) (d := '+') rfl
    rw [List.map_cons]
    unfold splitSign
    split <;> split <;> simp_all

/-- So are those of a number, behind the sign that may stand before them. -/
theorem readHex?_map_toLower (cs : List Char) : readHex? (cs.map Char.toLower) = readHex? cs := by
  have hread := hexFrom?_map_toLower 0
  rcases cs with _ | ⟨c, cs⟩
  · rfl
  · -- A sign before the digits is dropped, and no letter becomes one.
    by_cases hc : c = '+'
    · subst hc
      rcases cs with _ | ⟨d, ds⟩
      · rfl
      · have hds := hread (d :: ds)
        unfold readHex?
        simp_all
    · have hc' : c.toLower ≠ '+' := by rwa [Ne, toLower_eq_iff rfl]
      have hcs := hread (c :: cs)
      unfold readHex?
      simp_all

/-- Digits have no lower case of their own. -/
theorem map_toLower_of_digits {cs : List Char} (h : ∀ c ∈ cs, c.isDigit = true) :
    cs.map Char.toLower = cs :=
  (List.map_congr_left fun c hc => toLower_of_isDigit (h c hc)).trans (List.map_id cs)

theorem takeWhile_isDigit_map_toLower (cs : List Char) :
    (cs.map Char.toLower).takeWhile Char.isDigit = cs.takeWhile Char.isDigit := by
  rw [List.takeWhile_map, show Char.isDigit ∘ Char.toLower = Char.isDigit from
    funext isDigit_toLower]
  exact map_toLower_of_digits fun c hc => List.mem_takeWhile_imp hc

theorem dropWhile_isDigit_map_toLower (cs : List Char) :
    (cs.map Char.toLower).dropWhile Char.isDigit =
      (cs.dropWhile Char.isDigit).map Char.toLower := by
  rw [List.dropWhile_map, show Char.isDigit ∘ Char.toLower = Char.isDigit from
    funext isDigit_toLower]

/-- The whole part and the fraction are digits; only what follows them may change. -/
theorem splitDecimal_map_toLower (cs : List Char) :
    splitDecimal (cs.map Char.toLower) =
      ((splitDecimal cs).1, (splitDecimal cs).2.1, (splitDecimal cs).2.2.map Char.toLower) := by
  unfold splitDecimal
  rw [dropWhile_isDigit_map_toLower]
  rcases cs.dropWhile Char.isDigit with _ | ⟨c, ds⟩
  · simp [takeWhile_isDigit_map_toLower]
  · by_cases hc : c = '.'
    · subst hc
      simp [takeWhile_isDigit_map_toLower, dropWhile_isDigit_map_toLower]
    · have hc' : c.toLower ≠ '.' := by rwa [Ne, toLower_eq_iff rfl]
      simp [takeWhile_isDigit_map_toLower, hc, hc']

/-- An exponent is read the same, by its mark, its sign and its digits. -/
theorem readExponent?_map_toLower (cs : List Char) :
    readExponent? (cs.map Char.toLower) = readExponent? cs := by
  rcases cs with _ | ⟨c, cs⟩
  · rfl
  · have hall : ((splitSign cs).2.map Char.toLower).all Char.isDigit =
        (splitSign cs).2.all Char.isDigit := by
      rw [List.all_map, show Char.isDigit ∘ Char.toLower = Char.isDigit from
        funext isDigit_toLower]
    rw [List.map_cons, readExponent?, readExponent?, Text.exponentMark_toLower,
      splitSign_map_toLower]
    simp only [List.isEmpty_map, hall]
    split
    · split
      · rfl
      · next hdigits =>
        -- Where all are digits, lowering leaves them as they are.
        have hsame : (splitSign cs).2.map Char.toLower = (splitSign cs).2 :=
          map_toLower_of_digits (by simp_all)
        rw [hsame]
    · rfl

/-- The digits and the exponent of a number are read the same. -/
theorem readMagnitude?_map_toLower (cs : List Char) :
    readMagnitude? (cs.map Char.toLower) = readMagnitude? cs := by
  simp only [readMagnitude?, splitDecimal_map_toLower, readExponent?_map_toLower]

/-- The words for what is infinite and for what is no number are known in either case. -/
theorem readWord?_map_toLower (cs : List Char) :
    readWord? (cs.map Char.toLower) = readWord? cs := by
  have hword : (cs.map Char.toLower).map Char.toLower = cs.map Char.toLower := by
    rw [List.map_map]
    exact List.map_congr_left fun c _ => Text.toLower_toLower c
  simp only [readWord?, hword]

/-- A decimal number is read the same. -/
theorem readDecimal?_map_toLower (cs : List Char) :
    readDecimal? (cs.map Char.toLower) = readDecimal? cs := by
  simp only [readDecimal?, splitSign_map_toLower, readMagnitude?_map_toLower,
    readWord?_map_toLower]

/-- What follows a zero is hexadecimal if it is marked so. -/
theorem hexPart?_zero (x : Char) (cs : List Char) :
    hexPart? ('0' :: x :: cs) = if x = 'x' || x = 'X' then some cs else none := by
  unfold hexPart?
  split <;> simp_all

/-- Hexadecimal numbers start with a zero or a dollar. -/
theorem hexPart?_of_ne {c : Char} (hzero : c ≠ '0') (hdollar : c ≠ '$') (cs : List Char) :
    hexPart? (c :: cs) = none := by
  unfold hexPart?
  split <;> simp_all

/-- The same digits are taken for hexadecimal ones. -/
theorem hexPart?_map_toLower (cs : List Char) :
    hexPart? (cs.map Char.toLower) = (hexPart? cs).map (·.map Char.toLower) := by
  rcases cs with _ | ⟨c, cs⟩
  · rfl
  · -- Neither of the two marks that start such a number is a letter.
    by_cases hzero : c = '0'
    · subst hzero
      rcases cs with _ | ⟨x, ds⟩
      · rfl
      · show hexPart? ('0' :: x.toLower :: ds.map Char.toLower) = _
        rw [hexPart?_zero, hexPart?_zero, Text.hexMark_toLower]
        split <;> rfl
    · by_cases hdollar : c = '$'
      · subst hdollar
        rfl
      · rw [List.map_cons, hexPart?_of_ne hzero hdollar]
        exact hexPart?_of_ne (by rwa [Ne, toLower_eq_iff rfl]) (by rwa [Ne, toLower_eq_iff rfl]) _

/-- A number has the same value in lower case. -/
theorem read?_toLower (text : String) : read? text.toLower = read? text := by
  unfold read?
  rw [Text.toList_toLower, hexPart?_map_toLower]
  cases hexPart? text.toList with
  | none => exact readDecimal?_map_toLower _
  | some digits => rw [Option.map_some]; simp only [readHex?_map_toLower]

end Numeral

/-! ## Pieces -/

namespace Form

/-- What a piece is in the text in lower case. -/
def lowered : Form → Form
  | string value => string (value.map Char.toLower)
  | openString value => openString (value.map Char.toLower)
  | form => form

end Form

namespace Piece

open Text (toLower_eq_iff congr_toLower)

def lowered (p : Piece) : Piece := ⟨p.form.lowered, p.text.map Char.toLower⟩

/-- A run of characters is as long in lower case, when its test does not see the case. -/
theorem run_map_toLower {p : Char → Bool} (h : ∀ c, p c.toLower = p c) (cs : List Char) :
    run p (cs.map Char.toLower) = run p cs := by
  unfold run
  rw [List.takeWhile_map, List.length_map, show p ∘ Char.toLower = p from funext h]

theorem run_isDigit_map_toLower (cs : List Char) :
    run Char.isDigit (cs.map Char.toLower) = run Char.isDigit cs :=
  run_map_toLower Text.isDigit_toLower cs

theorem run_isHexDigit_map_toLower (cs : List Char) :
    run Text.isHexDigit (cs.map Char.toLower) = run Text.isHexDigit cs :=
  run_map_toLower (congr_toLower (by decide)) cs

/-- A block comment ends at the same place. -/
theorem commentLength?_map_toLower (cs : List Char) :
    commentLength? (cs.map Char.toLower) = commentLength? cs := by
  fun_induction commentLength? cs with
  | case1 => rfl
  | case2 => rfl
  | case3 c d cs h =>
    simp only [Bool.and_eq_true, decide_eq_true_eq] at h
    rcases h with ⟨rfl, rfl⟩
    rfl
  | case4 c d cs h ih =>
    rw [List.map_cons] at ih
    simp only [List.map_cons, commentLength?, toLower_eq_iff (d := '*') rfl,
      toLower_eq_iff (d := '/') rfl, if_neg h, ih]

/-- A line goes on after a backslash at its end, which is no letter. -/
theorem continues_map_toLower (line : List Char) :
    continues (line.map Char.toLower) = continues line := by
  unfold continues
  rw [Text.trimRight_map_toLower, List.getLast?_map]
  cases (Text.trimRight line).getLast? with
  | none => rfl
  | some c =>
    rw [Option.map_some, Bool.eq_iff_iff, beq_iff_eq, beq_iff_eq, Option.some_inj, Option.some_inj,
      toLower_eq_iff rfl]

/-- A preprocessor line is as long, with the lines that continue it. -/
theorem directiveLength_map_toLower (line cs : List Char) :
    directiveLength (line.map Char.toLower) (cs.map Char.toLower) = directiveLength line cs := by
  induction cs generalizing line with
  | nil => rfl
  | cons c cs ih =>
    have hfresh := ih []
    have hline := ih (c :: line)
    rw [List.map_nil] at hfresh
    rw [List.map_cons] at hline
    simp only [List.map_cons, directiveLength, toLower_eq_iff (d := '\n') rfl,
      ← List.map_reverse, continues_map_toLower, List.isEmpty_map, hline, hfresh]

/-- A string ends at the same quote, doubled quotes included. -/
theorem stringBody_map_toLower {quote : Char} (hquote : quote.isAlpha = false) (cs : List Char) :
    stringBody quote (cs.map Char.toLower) =
      ((stringBody quote cs).1.map Char.toLower, (stringBody quote cs).2) := by
  have hsame := Text.toLower_of_not_isAlpha hquote
  fun_induction stringBody quote cs with
  | case1 => rfl
  -- The quote is doubled: it is a part of the value, and the string goes on.
  | case2 d value n closed hbody ih =>
    simp only [List.map_cons, stringBody, hsame, ih, hbody, if_true]
  -- The quote stands alone and closes the string.
  | case3 d ds hd =>
    have hd' : d.toLower ≠ quote := by rwa [Ne, toLower_eq_iff hquote]
    simp only [List.map_cons, stringBody, hsame, hd', if_true, if_false]
    rfl
  | case4 =>
    simp only [List.map_cons, List.map_nil, stringBody, hsame, if_true]
  | case5 c cs hc value n closed hbody ih =>
    have hc' : c.toLower ≠ quote := by rwa [Ne, toLower_eq_iff hquote]
    rw [List.map_cons, stringBody.eq_def]
    simp only [hc', if_false, ih, hbody, List.map_cons]

/-- An exponent is as long. -/
theorem exponentLength_map_toLower (cs : List Char) :
    exponentLength (cs.map Char.toLower) = exponentLength cs := by
  rcases cs with _ | ⟨c, _ | ⟨d, ds⟩⟩
  · rfl
  · simp only [List.map_cons, List.map_nil, exponentLength, Text.exponentMark_toLower]
  · have hdigits : run Char.isDigit (d.toLower :: ds.map Char.toLower) =
        run Char.isDigit (d :: ds) :=
      run_isDigit_map_toLower (d :: ds)
    simp only [List.map_cons, exponentLength, Text.exponentMark_toLower,
      toLower_eq_iff (d := '+') rfl, toLower_eq_iff (d := '-') rfl, run_isDigit_map_toLower,
      hdigits]

/-- A fraction is as long. -/
theorem fractionLength_map_toLower (cs : List Char) :
    fractionLength (cs.map Char.toLower) = fractionLength cs := by
  rcases cs with _ | ⟨c, cs⟩
  · rfl
  · have hpoint := toLower_eq_iff (c := c) (d := '.') rfl
    have hdigits := run_isDigit_map_toLower cs
    unfold fractionLength
    by_cases hc : c = '.'
    · subst hc
      simp_all
    · simp_all

/-- A decimal number is as long. -/
theorem decimalLength_map_toLower (cs : List Char) :
    decimalLength (cs.map Char.toLower) = decimalLength cs := by
  simp only [decimalLength, run_isDigit_map_toLower, ← List.map_drop, fractionLength_map_toLower,
    exponentLength_map_toLower]

/-- A hexadecimal number is as long. -/
theorem hexLength_map_toLower (cs : List Char) :
    hexLength (cs.map Char.toLower) = hexLength cs := by
  rcases cs with _ | ⟨c, cs⟩
  · rfl
  · have hzero := toLower_eq_iff (c := c) (d := '0') rfl
    have hdollar := toLower_eq_iff (c := c) (d := '$') rfl
    have hdigits := run_isHexDigit_map_toLower
    -- The two marks that a hexadecimal number can start with are read apart.
    by_cases h0 : c = '0'
    · subst h0
      rcases cs with _ | ⟨x, ds⟩
      · rfl
      · show hexLength ('0' :: x.toLower :: ds.map Char.toLower) = _
        rw [hexLength, hexLength, Text.hexMark_toLower, hdigits]
    · unfold hexLength
      by_cases hd : c = '$'
      · subst hd
        simp_all
      · simp_all

/-- A symbol is made of characters that are no letters. -/
theorem symbol?_of_isAlpha {c : Char} (h : c.isAlpha = true) (rest : List Char) :
    symbol? c rest = none := by
  unfold symbol?
  split <;> first | rfl | cases h

/-- The same operator or bracket starts here, of one character or of two. -/
theorem symbol?_map_toLower (c : Char) (rest : List Char) :
    symbol? c.toLower (rest.map Char.toLower) = symbol? c rest := by
  cases hc : c.isAlpha with
  | true =>
    rw [symbol?_of_isAlpha hc, symbol?_of_isAlpha (by rwa [Text.isAlpha_toLower])]
  | false =>
    rw [Text.toLower_of_not_isAlpha hc]
    rcases rest with _ | ⟨d, ds⟩
    · rfl
    · have hequals := toLower_eq_iff (c := d) (d := '=') rfl
      have hgreater := toLower_eq_iff (c := d) (d := '>') rfl
      have hbar := toLower_eq_iff (c := d) (d := '|') rfl
      have hand := toLower_eq_iff (c := d) (d := '&') rfl
      rw [List.map_cons]
      unfold symbol?
      split <;> simp_all

/-- A number, a name, a string or a symbol ends where it does in the text itself. -/
theorem firstToken_map_toLower (c : Char) (rest : List Char) :
    firstToken c.toLower (rest.map Char.toLower) =
      ((firstToken c rest).1.lowered, (firstToken c rest).2) := by
  have hhex := hexLength_map_toLower (c :: rest)
  have hdecimal := decimalLength_map_toLower (c :: rest)
  have hstart : isNameStart c.toLower = isNameStart c := congr_toLower (by decide) c
  have hrun : run isNamePart (rest.map Char.toLower) = run isNamePart rest :=
    run_map_toLower (congr_toLower (by decide)) rest
  have hword (n : Nat) : Kind.ofWord (.ofList (c.toLower :: (rest.map Char.toLower).take n)) =
      Kind.ofWord (.ofList (c :: rest.take n)) := by
    rw [← List.map_take, ← List.map_cons, ← Text.ofList_toLower, Kind.ofWord, Text.toLower_idem]
    rfl
  rw [List.map_cons] at hhex hdecimal
  unfold firstToken
  simp only [hhex, hdecimal, hstart, hrun, hword, toLower_eq_iff (d := '"') rfl,
    toLower_eq_iff (d := '\'') rfl, symbol?_map_toLower]
  -- From here on only the length of the number matters.
  generalize (if hexLength (c :: rest) = 0 then decimalLength (c :: rest)
    else hexLength (c :: rest)) = number
  split
  · rfl
  · split
    · rfl
    · split
      · next hquote =>
        simp only [Bool.or_eq_true, decide_eq_true_eq] at hquote
        have hletter : c.isAlpha = false := by rcases hquote with rfl | rfl <;> rfl
        rw [Text.toLower_of_not_isAlpha hletter, stringBody_map_toLower hletter]
        rcases stringBody c rest with ⟨value, n, closed⟩
        cases closed <;> rfl
      · rcases symbol? c rest with _ | ⟨kind, n⟩ <;> rfl

/-- The first piece is as long as that of the text itself. -/
theorem first_map_toLower (fresh : Bool) (c : Char) (rest : List Char) :
    first fresh c.toLower (rest.map Char.toLower) =
      ((first fresh c rest).1.lowered, (first fresh c rest).2) := by
  have hblank : run Text.isBlank (rest.map Char.toLower) = run Text.isBlank rest :=
    run_map_toLower Text.isBlank_toLower rest
  have hline : run (· ≠ '\n') (rest.map Char.toLower) = run (· ≠ '\n') rest :=
    run_map_toLower (congr_toLower (by decide)) rest
  have hhead (d : Char) (hd : d.isAlpha = false) :
      (rest.map Char.toLower).head? = some d ↔ rest.head? = some d := by
    cases rest with
    | nil => rfl
    | cons e rest => simp [toLower_eq_iff hd]
  have hletter : (rest.map Char.toLower).head?.any Char.isAlpha = rest.head?.any Char.isAlpha := by
    cases rest with
    | nil => rfl
    | cons e rest => exact Text.isAlpha_toLower e
  -- A directive is told from a lone `#` by its first letter.
  have hdirective (hhash : c = '#') :
      directiveLength [c.toLower] (rest.map Char.toLower) = directiveLength [c] rest :=
    directiveLength_map_toLower [c] rest
  unfold first
  simp only [Text.isBlank_toLower, hblank, hline, toLower_eq_iff (d := '/') rfl,
    toLower_eq_iff (d := '#') rfl, hhead '/' rfl, hhead '*' rfl, hletter, ← List.map_tail,
    commentLength?_map_toLower, List.length_map, firstToken_map_toLower]
  split
  · rfl
  · split
    · rfl
    · split
      · cases commentLength? rest.tail <;> rfl
      · split
        · next hhash =>
          rw [hdirective hhash]
          split <;> rfl
        · rfl

/-- A line has seen nothing but blanks in both texts or in neither. -/
theorem staysFresh_map_toLower (fresh : Bool) (text : List Char) :
    staysFresh fresh (text.map Char.toLower) = staysFresh fresh text := by
  have hsame (c d : Char) (hd : d.isAlpha = false) : (c.toLower == d) = (c == d) := by
    rw [Bool.eq_iff_iff, beq_iff_eq, beq_iff_eq, toLower_eq_iff hd]
  unfold staysFresh
  rw [List.foldl_map]
  simp only [hsame _ '\n' rfl, hsame _ ' ' rfl, hsame _ '\t' rfl]

/-- The text in lower case is cut at the same places. -/
theorem cut_map_toLower (fresh : Bool) (cs : List Char) :
    cut fresh (cs.map Char.toLower) = (cut fresh cs).map lowered := by
  fun_induction cut fresh cs with
  | case1 => rw [List.map_nil, cut, List.map_nil]
  | case2 fresh c rest form n hfirst text ih =>
    have htext : c.toLower :: (rest.map Char.toLower).take n = text.map Char.toLower := by
      rw [← List.map_take]
      rfl
    rw [List.map_cons, cut, first_map_toLower, hfirst, List.map_cons]
    simp only [htext, staysFresh_map_toLower, ← List.map_drop, ih]
    rfl

/-! ## Tokens -/

/-- A piece in lower case gives the token in lower case, at the same place. -/
theorem token?_lowered (start : Nat) (p : Piece) :
    p.lowered.token? start = (p.token? start).map Recast.lowered.token := by
  rcases p with ⟨form, text⟩
  cases form <;>
    simp [token?, lowered, Form.lowered, Recast.token, Recast.lowered, Text.ofList_toLower,
      Text.width_map_toLower]

/-- The diagnostic of a piece in lower case is that of the piece. -/
theorem diagnostic?_lowered (start : Nat) (p : Piece) :
    p.lowered.diagnostic? start = (p.diagnostic? start).map Recast.lowered.diagnostic := by
  rcases p with ⟨form, text⟩
  cases form <;>
    simp [diagnostic?, lowered, Form.lowered, Recast.diagnostic, Recast.cause, Recast.lowered,
      Text.ofList_toLower, Text.width_map_toLower]

/-- A piece keeps its width. -/
theorem width_lowered (p : Piece) : Text.width p.lowered.text = Text.width p.text :=
  Text.width_map_toLower p.text

/-- So the tokens of all pieces stay where they are. -/
theorem tokens_map_lowered (start : Nat) (ps : List Piece) :
    tokens start (ps.map lowered) = (tokens start ps).map Recast.lowered.token := by
  induction ps generalizing start with
  | nil => rfl
  | cons p ps ih =>
    rw [List.map_cons, tokens, tokens, token?_lowered, width_lowered, ih, List.map_append,
      Option.toList_map]

/-- And so do their diagnostics. -/
theorem diagnostics_map_lowered (start : Nat) (ps : List Piece) :
    diagnostics start (ps.map lowered) =
      (diagnostics start ps).map Recast.lowered.diagnostic := by
  induction ps generalizing start with
  | nil => rfl
  | cons p ps ih =>
    rw [List.map_cons, diagnostics, diagnostics, diagnostic?_lowered, width_lowered, ih,
      List.map_append, Option.toList_map]

end Piece

/-- The tokens of a source text, without the end of input. -/
def words (source : String) : List Token := Piece.tokens 0 (pieces source.toList)

/-- Behind these stands the end of input. -/
theorem scan_tokens (source : String) :
    (scan source).tokens = words source ++ [.endAt (Text.width source.toList)] :=
  rfl

/-- A text in lower case falls into the same pieces. -/
theorem pieces_toLower (source : String) :
    pieces source.toLower.toList = (pieces source.toList).map Piece.lowered := by
  rw [Text.toList_toLower]
  exact Piece.cut_map_toLower true source.toList

/-- A text in lower case has the tokens of the text itself, in lower case, and ends where it
does. -/
theorem scan_toLower_tokens (source : String) :
    (scan source.toLower).tokens =
      (words source).map Recast.lowered.token ++ [.endAt (Text.width source.toList)] := by
  rw [scan_tokens, words, pieces_toLower, Piece.tokens_map_lowered, Text.toList_toLower,
    Text.width_map_toLower]
  rfl

/-- The same characters, strings and comments are broken. -/
theorem scan_toLower_diagnostics (source : String) :
    (scan source.toLower).diagnostics =
      (scan source).diagnostics.map Recast.lowered.diagnostic := by
  show Piece.diagnostics 0 (pieces source.toLower.toList) =
    (Piece.diagnostics 0 (pieces source.toList)).map Recast.lowered.diagnostic
  rw [pieces_toLower, Piece.diagnostics_map_lowered]

end Sqf
