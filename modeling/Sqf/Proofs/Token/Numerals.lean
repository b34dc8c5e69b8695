import Mathlib.Data.Nat.Digits.Defs
import Sqf.Numeral
import Sqf.Proofs.Token.Rescan

/-!
# Reading the numbers of a text

The scanner measures a numeral, and its text is read later on. What is measured is a decimal
numeral, which is always read, or a mark with hexadecimal digits behind it (`IsHex`), which is
read unless its value takes more than 64 bits (`Oversized`). So these are the only numbers of a
text that are not read (`read?_eq_none_iff_of_mem`).
-/

namespace Sqf

/-- What hexadecimal numerals start with. -/
def hexMarks : List (List Char) := [['0', 'x'], ['0', 'X'], ['$']]

/-- A hexadecimal numeral and its value: one of the marks, and one digit at least. The last digit
counts once and any other sixteen times what the next one does. -/
inductive IsHex : List Char → Nat → Prop
  | digits {mark ds : List Char} (hmark : mark ∈ hexMarks) (hne : ds ≠ [])
    (h : ds.all Text.isHexDigit = true) :
    IsHex (mark ++ ds) (Nat.ofDigits 16 (ds.reverse.filterMap Text.hexValue?))

/-- A hexadecimal numeral whose value is 2^64 at least. -/
def Oversized (text : List Char) : Prop := ∃ n, IsHex text n ∧ UInt64.size ≤ n

/-- A decimal or hexadecimal numeral. -/
def IsNumeral (text : List Char) : Prop := IsDecimal text ∨ ∃ n, IsHex text n

/-! ## What is measured -/

/-- A hexadecimal numeral that is measured is one. -/
theorem isHex_take {cs : List Char} (h : Piece.hexLength cs ≠ 0) :
    ∃ n, IsHex (cs.take (Piece.hexLength cs)) n := by
  unfold Piece.hexLength at h ⊢
  -- The mark is a zero with a letter behind it, or a dollar.
  split at h
  · next x ds =>
    split at h
    · next hx =>
      rw [if_pos hx]
      simp only [Bool.and_eq_true, Bool.or_eq_true, decide_eq_true_eq] at hx
      have hmark : ['0', x] ∈ hexMarks := by
        rcases hx.1 with rfl | rfl <;> decide
      exact ⟨_, .digits hmark (take_run_ne_nil hx.2) (all_take_run _ ds)⟩
    · exact absurd rfl h
  · next ds =>
    split at h
    · exact absurd rfl h
    · next hdigits =>
      rw [if_neg hdigits]
      have hmark : ['$'] ∈ hexMarks := by decide
      exact ⟨_, .digits hmark (take_run_ne_nil hdigits) (all_take_run _ ds)⟩
  · exact absurd rfl h

/-- No symbol is a number. -/
theorem symbol?_ne_number {c : Char} {rest : List Char} {n : Nat} :
    Piece.symbol? c rest ≠ some (.number, n) := by
  unfold Piece.symbol?
  split <;> simp

/-- A token that is a number has a numeral for text. -/
theorem PlainToken.isNumeral {c : Char} {rest : List Char} {kind : Kind} {n : Nat}
    (h : PlainToken c rest kind n) (hkind : kind = .number) : IsNumeral (c :: rest.take n) := by
  cases h with
  | hex h =>
    have hnumeral := isHex_take (show Piece.hexLength (c :: rest) ≠ 0 by omega)
    rw [h, List.take_succ_cons] at hnumeral
    exact .inr hnumeral
  | decimal h =>
    have hnumeral := isDecimal_take (show Piece.decimalLength (c :: rest) ≠ 0 by omega)
    rw [h, List.take_succ_cons] at hnumeral
    exact .inl hnumeral
  | name _ =>
    have hname : Kind.number.isNameKind = true := hkind ▸ Kind.isNameKind_ofWord _
    cases hname
  | symbol h =>
    subst hkind
    exact absurd h symbol?_ne_number
  | hash _ => cases hkind

/-- The text of a number in a source is a numeral. -/
theorem isNumeral_of_mem_tokens {source : String} {t : Token} (ht : t ∈ (scan source).tokens)
    (hkind : t.kind = .number) : IsNumeral t.value.toList := by
  rw [tokens_scan, List.mem_append, List.mem_singleton] at ht
  rcases ht with ht | rfl
  · obtain ⟨front, p, back, hpieces, htoken⟩ := Piece.exists_of_mem_tokens ht
    obtain ⟨c, rest, hform, htext, -⟩ := Piece.first_of_cut hpieces
    unfold Piece.token? at htoken
    split at htoken
    · next kind hkind' =>
      cases htoken
      rw [String.toList_ofList, ← htext]
      exact (plainToken_of_first (Prod.ext (hform.trans hkind') rfl)).isNumeral hkind
    · cases htoken
      cases hkind
    · cases htoken
      cases hkind
    · cases htoken
  · cases hkind

/-! ## Reading the parts of numerals -/

namespace Numeral

/-- Hexadecimal digits are read one by one, by Horner's rule. -/
theorem hexFrom?_of_all {ds : List Char} (h : ds.all Text.isHexDigit = true) (n : Nat) :
    hexFrom? n ds = some ((ds.filterMap Text.hexValue?).foldl (fun n d => d + 16 * n) n) := by
  induction ds generalizing n with
  | nil => rfl
  | cons c ds ih =>
    rw [List.all_cons, Bool.and_eq_true] at h
    obtain ⟨d, hd⟩ := Option.isSome_iff_exists.1 h.1
    rw [hexFrom?, hd, List.filterMap_cons_some hd, List.foldl_cons, Nat.add_comm d]
    exact ih h.2 _

/-- So digits are read as the number that they write. -/
theorem readHex?_of_all {ds : List Char} (hne : ds ≠ []) (h : ds.all Text.isHexDigit = true) :
    let n := Nat.ofDigits 16 (ds.reverse.filterMap Text.hexValue?)
    readHex? ds = if n < UInt64.size then some n else none := by
  obtain ⟨c, ds, rfl⟩ := List.exists_cons_of_ne_nil hne
  have hplus : c ≠ '+' := by
    rintro rfl
    cases h
  have hvalue : hexFrom? 0 (c :: ds) =
      some (Nat.ofDigits 16 ((c :: ds).reverse.filterMap Text.hexValue?)) := by
    rw [hexFrom?_of_all h, List.filterMap_reverse, Nat.ofDigits_eq_foldr, List.foldr_reverse]
    rfl
  unfold readHex?
  simp [hplus, hvalue]

theorem takeWhile_append {p : Char → Bool} {cs rest : List Char} (hcs : cs.all p = true)
    (hrest : Follows (fun c => !p c) rest) : (cs ++ rest).takeWhile p = cs := by
  rw [← Text.take_run, run_append hcs hrest, List.take_left]

theorem dropWhile_append {p : Char → Bool} {cs rest : List Char} (hcs : cs.all p = true)
    (hrest : Follows (fun c => !p c) rest) : (cs ++ rest).dropWhile p = rest := by
  rw [← Text.drop_run, run_append hcs hrest, List.drop_left]

/-- The parts of a numeral are found again. -/
theorem splitDecimal_append {whole fraction exponent : List Char}
    (hwhole : whole.all Char.isDigit = true) (hfraction : IsFraction fraction)
    (hexponent : IsExponent exponent) :
    splitDecimal (whole ++ (fraction ++ exponent)) = (whole, fraction.tail, exponent) := by
  have hbehind : Follows (fun c => !c.isDigit && c != '.') exponent := by
    simpa using hexponent.follows (follows_nil _)
  -- The digits in front end at the point or at the exponent.
  have hwholeEnds := hfraction.follows hbehind
  unfold splitDecimal
  rw [takeWhile_append hwhole hwholeEnds, dropWhile_append hwhole hwholeEnds]
  cases hfraction with
  | none =>
    rw [List.nil_append]
    dsimp only
    split
    · rw [follows_cons] at hbehind
      cases hbehind
    · rfl
  | @digits ds _ hds =>
    have hends := hbehind.mono fun c hc => (Bool.and_eq_true_iff.1 hc).1
    show (whole, (ds ++ exponent).takeWhile Char.isDigit, (ds ++ exponent).dropWhile Char.isDigit) =
      (whole, ds, exponent)
    rw [takeWhile_append hds hends, dropWhile_append hds hends]

theorem splitSign_of_ne {c : Char} (hminus : c ≠ '-') (hplus : c ≠ '+') (cs : List Char) :
    splitSign (c :: cs) = (false, c :: cs) := by
  unfold splitSign
  split <;> simp_all

/-- Every exponent is read. -/
theorem readExponent?_isSome {exponent : List Char} (h : IsExponent exponent) :
    (readExponent? exponent).isSome = true := by
  cases h with
  | none => rfl
  | @digits mark sign ds hmark hsign hne hds =>
    have hdigits : (splitSign (sign ++ ds)).2 = ds := by
      simp only [List.mem_cons, List.not_mem_nil, or_false] at hsign
      rcases hsign with rfl | rfl | rfl
      · obtain ⟨d, ds, rfl⟩ := List.exists_cons_of_ne_nil hne
        rw [List.all_cons, Bool.and_eq_true] at hds
        have hminus : d ≠ '-' := by rintro rfl; cases hds.1
        have hplus : d ≠ '+' := by rintro rfl; cases hds.1
        rw [List.nil_append, splitSign_of_ne hminus hplus]
      · rfl
      · rfl
    simp [readExponent?, hmark, hdigits, hne, hds]

end Numeral

/-! ## Reading numerals -/

open Numeral (hexPart? readMagnitude? readDecimal?)

/-- A hexadecimal number is read if it fits into 64 bits. -/
theorem IsHex.read?_eq {text : List Char} {n : Nat} (h : IsHex text n) :
    Numeral.read? (.ofList text) = if n < UInt64.size then some (.ofNat n) else none := by
  cases h with
  | @digits mark ds hmark hne hds =>
    have hpart : hexPart? (mark ++ ds) = some ds := by
      simp only [hexMarks, List.mem_cons, List.not_mem_nil, or_false] at hmark
      rcases hmark with rfl | rfl | rfl <;> rfl
    rw [Numeral.read?, String.toList_ofList, hpart]
    dsimp only
    rw [Numeral.readHex?_of_all hne hds]
    split <;> rfl

/-- So it is not read just if it does not. -/
theorem IsHex.read?_eq_none_iff {text : List Char} {n : Nat} (h : IsHex text n) :
    Numeral.read? (.ofList text) = none ↔ UInt64.size ≤ n := by
  rw [h.read?_eq, ← Nat.not_lt]
  split <;> simp [*]

/-- Every decimal numeral is read. -/
theorem IsDecimal.read?_isSome {text : List Char} (h : IsDecimal text) :
    (Numeral.read? (.ofList text)).isSome = true := by
  -- A decimal number has none of the marks of a hexadecimal one.
  have hpart : hexPart? text = none := by
    have hall := h.all
    unfold hexPart?
    split <;> simp_all [isDecimalPart]
  obtain ⟨c, cs, hcons, hc⟩ := h.exists_cons
  have hminus : c ≠ '-' := by rintro rfl; simp at hc
  have hplus : c ≠ '+' := by rintro rfl; simp at hc
  have hmagnitude : (readMagnitude? text).isSome = true := by
    obtain ⟨whole, fraction, exponent, rfl, hwhole, hfraction, hexponent, hne⟩ := h
    have hdigits : (whole.isEmpty && fraction.tail.isEmpty) = false := by
      cases hfraction with
      | none => simpa using hne
      | digits hds _ => simp [hds]
    rw [readMagnitude?, Numeral.splitDecimal_append hwhole hfraction hexponent]
    simp [hdigits, Numeral.readExponent?_isSome hexponent]
  rw [Numeral.read?, String.toList_ofList, hpart]
  dsimp only
  rw [readDecimal?, hcons, Numeral.splitSign_of_ne hminus hplus, ← hcons]
  simp [hmagnitude]

/-- Of all numerals only those that are too large are not read. -/
theorem read?_eq_none_iff {text : List Char} (h : IsNumeral text) :
    Numeral.read? (.ofList text) = none ↔ Oversized text := by
  constructor
  · intro hnone
    rcases h with h | ⟨n, h⟩
    · have hsome := h.read?_isSome
      rw [hnone] at hsome
      cases hsome
    · exact ⟨n, h, h.read?_eq_none_iff.1 hnone⟩
  · rintro ⟨n, h, hn⟩
    exact h.read?_eq_none_iff.2 hn

/-- A number of a source text is read unless it is too large. -/
theorem read?_eq_none_iff_of_mem {source : String} {t : Token} (ht : t ∈ (scan source).tokens)
    (hkind : t.kind = .number) : Numeral.read? t.value = none ↔ Oversized t.value.toList := by
  have hread := read?_eq_none_iff (isNumeral_of_mem_tokens ht hkind)
  rwa [String.ofList_toList] at hread

end Sqf
