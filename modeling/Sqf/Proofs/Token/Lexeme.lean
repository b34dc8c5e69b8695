import Sqf.Proofs.Token.Shape

/-!
# Writing tokens into a text

`Scans` says of a text that it is scanned to certain tokens wherever it stands, if
only the character behind it is one that may follow. Such texts can be put one behind
the other (`Scans.append`). Names, decimal numerals, quoted strings and symbols are
texts of this kind, and a blank is one without tokens.
-/

namespace Sqf

/-- A token without its place. -/
structure Lexeme where
  kind : Kind
  value : String
deriving DecidableEq, Repr

def Token.lexeme (t : Token) : Lexeme := ⟨t.kind, t.value⟩

/-- The token that a piece with this text is, its place left aside, if nothing is wrong
with it. -/
def Form.lexeme? (text : List Char) : Form → Option Lexeme
  | .plain kind => some ⟨kind, .ofList text⟩
  | .string value => some ⟨.string, .ofList value⟩
  | _ => none

/-- The text ends here, or it goes on with a character that may follow. -/
def Follows (mayFollow : Char → Bool) (rest : List Char) : Prop :=
  ∀ c ∈ rest.head?, mayFollow c = true

theorem follows_nil (mayFollow : Char → Bool) : Follows mayFollow [] :=
  fun _ h => by cases h

theorem follows_cons {mayFollow : Char → Bool} {c : Char} {rest : List Char} :
    Follows mayFollow (c :: rest) ↔ mayFollow c = true := by
  simp [Follows]

theorem Follows.mono {mayFollow others : Char → Bool} {rest : List Char}
    (h : Follows mayFollow rest) (hothers : ∀ c, mayFollow c = true → others c = true) :
    Follows others rest :=
  fun c hc => hothers c (h c hc)

/-- What may follow a text behind which anything may stand. -/
def anything (_ : Char) : Bool := true

theorem follows_anything (rest : List Char) : Follows anything rest :=
  fun _ _ => rfl

open Piece (cut tokens diagnostics staysFresh staysFresh_append first firstToken isNameStart
  isNamePart run)

/-- A text that is scanned to these tokens wherever it stands, without a diagnostic. The rest of
the text is scanned as if the line had begun as this text leaves it. -/
def Scans (mayFollow : Char → Bool) (text : List Char) (ls : List Lexeme) : Prop :=
  ∀ fresh start rest, Follows mayFollow rest → ∃ ts : List Token, ts.map Token.lexeme = ls ∧
    tokens start (cut fresh (text ++ rest)) =
      ts ++ tokens (start + Text.width text) (cut (staysFresh fresh text) rest) ∧
    diagnostics start (cut fresh (text ++ rest)) =
      diagnostics (start + Text.width text) (cut (staysFresh fresh text) rest)

namespace Scans

variable {mayFollow others : Char → Bool} {text more : List Char} {ls ms : List Lexeme}

theorem nil : Scans mayFollow [] [] :=
  fun _ _ _ _ => ⟨[], rfl, rfl, rfl⟩

theorem mono (h : Scans mayFollow text ls) (hothers : ∀ c, others c = true → mayFollow c = true) :
    Scans others text ls :=
  fun fresh start rest hrest => h fresh start rest (hrest.mono hothers)

/-- Texts stand one behind the other if the second begins with what may follow the first. -/
theorem append (h : Scans mayFollow text ls) (hmore : Scans others more ms)
    (hfollows : ∀ rest, Follows others rest → Follows mayFollow (more ++ rest)) :
    Scans others (text ++ more) (ls ++ ms) := by
  intro fresh start rest hrest
  obtain ⟨ts, hts, htokens, hdiagnostics⟩ := h fresh start (more ++ rest) (hfollows rest hrest)
  obtain ⟨us, hus, htokens', hdiagnostics'⟩ :=
    hmore (staysFresh fresh text) (start + Text.width text) rest hrest
  refine ⟨ts ++ us, by rw [List.map_append, hts, hus], ?_, ?_⟩
  · rw [List.append_assoc, htokens, htokens', Text.width_append, staysFresh_append,
      List.append_assoc, Nat.add_assoc]
  · rw [List.append_assoc, hdiagnostics, hdiagnostics', Text.width_append, staysFresh_append,
      Nat.add_assoc]

/-- Anything may stand behind the first text. -/
theorem before (h : Scans anything text ls) (hmore : Scans others more ms) :
    Scans others (text ++ more) (ls ++ ms) :=
  h.append hmore fun _ _ => follows_anything _

/-- The second text begins with a character that may follow the first. -/
theorem append_cons {c : Char} (h : Scans mayFollow text ls) (hmore : Scans others (c :: more) ms)
    (hc : mayFollow c = true) : Scans others (text ++ c :: more) (ls ++ ms) :=
  h.append hmore fun _ _ => follows_cons.2 hc

/-- A single token, which is the first piece of whatever it stands in front of. -/
theorem of_first {c : Char} {cs : List Char} (form : Form) {l : Lexeme}
    (hl : form.lexeme? (c :: cs) = some l)
    (h : ∀ fresh rest, Follows mayFollow rest → first fresh c (cs ++ rest) = (form, cs.length)) :
    Scans mayFollow (c :: cs) [l] := by
  intro fresh start rest hrest
  have hcut : cut fresh (c :: (cs ++ rest)) =
      ⟨form, c :: cs⟩ :: cut (staysFresh fresh (c :: cs)) rest := by
    rw [cut, h fresh rest hrest]
    simp
  rw [List.cons_append, hcut, tokens, diagnostics]
  cases form with
  | plain kind =>
    cases hl
    exact ⟨[⟨kind, .ofList (c :: cs), _⟩], rfl, rfl, rfl⟩
  | string value =>
    cases hl
    exact ⟨[⟨.string, .ofList value, _⟩], rfl, rfl, rfl⟩
  | _ => cases hl

/-- A blank, which goes together with the blanks that follow. -/
theorem blank {b : Char} (hb : Text.isBlank b = true) : Scans anything [b] [] := by
  intro fresh start rest _
  refine ⟨[], rfl, ?_⟩
  have hcut : cut fresh (b :: rest) = ⟨.blank, b :: rest.take (run Text.isBlank rest)⟩ ::
      cut (staysFresh fresh (b :: rest.take (run Text.isBlank rest)))
        (rest.drop (run Text.isBlank rest)) := by
    rw [cut, first, if_pos hb]
  have hfresh (text : List Char) :
      staysFresh fresh (b :: text) = staysFresh (staysFresh fresh [b]) text :=
    staysFresh_append fresh [b] text
  rw [List.singleton_append, List.nil_append, hcut, tokens, diagnostics, hfresh]
  cases rest with
  | nil =>
    have hnil (fresh : Bool) : cut fresh [] = [] := by rw [cut]
    simp [hnil, tokens, diagnostics, Piece.token?, Piece.diagnostic?]
  | cons d ds =>
    by_cases hd : Text.isBlank d = true
    · -- The blanks behind are a piece by themselves if the first one is taken away.
      have hrun : run Text.isBlank (d :: ds) = run Text.isBlank ds + 1 := by simp [run, hd]
      have hrest : cut (staysFresh fresh [b]) (d :: ds) =
          ⟨.blank, d :: ds.take (run Text.isBlank ds)⟩ ::
            cut (staysFresh (staysFresh fresh [b]) (d :: ds.take (run Text.isBlank ds)))
              (ds.drop (run Text.isBlank ds)) := by
        rw [cut, first, if_pos hd]
      rw [hrun, hrest, tokens, diagnostics, List.take_succ_cons, List.drop_succ_cons]
      simp [Piece.token?, Piece.diagnostic?, Nat.add_assoc]
    · have hrun : run Text.isBlank (d :: ds) = 0 := by simp [run, hd]
      simp [hrun, Piece.token?, Piece.diagnostic?, staysFresh]

/-- A whole text is scanned to its tokens and the end of input, and nothing is reported. -/
theorem scan_eq (h : Scans mayFollow text ls) :
    ∃ ts, (scan (.ofList text)).tokens = ts ++ [.endAt (Text.width text)] ∧
      ts.map Token.lexeme = ls ∧ (scan (.ofList text)).diagnostics = [] := by
  obtain ⟨ts, hts, htokens, hdiagnostics⟩ := h true 0 [] (follows_nil _)
  have hnil (fresh : Bool) : cut fresh [] = [] := by rw [cut]
  rw [List.append_nil, hnil, tokens, List.append_nil] at htokens
  rw [List.append_nil, hnil, diagnostics] at hdiagnostics
  refine ⟨ts, ?_, hts, ?_⟩
  · rw [scan, String.toList_ofList, pieces, htokens]
  · rw [scan, String.toList_ofList, pieces, hdiagnostics]

end Scans

/-! ## Names -/

/-- Letters, digits and underscores, of which the first is no digit. -/
def IsName (text : List Char) : Prop :=
  text.head?.any isNameStart = true ∧ text.all isNamePart = true

instance (text : List Char) : Decidable (IsName text) :=
  inferInstanceAs (Decidable (_ ∧ _))

/-- A name has a first character. -/
theorem IsName.exists_cons {text : List Char} (h : IsName text) :
    ∃ c cs, text = c :: cs ∧ isNameStart c = true ∧ cs.all isNamePart = true := by
  obtain ⟨hstart, hpart⟩ := h
  cases text with
  | nil => cases hstart
  | cons c cs =>
    rw [List.all_cons, Bool.and_eq_true] at hpart
    exact ⟨c, cs, rfl, by simpa using hstart, hpart.2⟩

/-- What does not end a name. -/
def endsName (c : Char) : Bool := !isNamePart c

/-- A run ends where what follows does not go on with it. -/
theorem run_append {p : Char → Bool} {cs rest : List Char} (hcs : cs.all p = true)
    (hrest : Follows (fun c => !p c) rest) : run p (cs ++ rest) = cs.length := by
  have hnone : rest.takeWhile p = [] := by
    cases rest with
    | nil => rfl
    | cons c rest =>
      rw [follows_cons] at hrest
      simpa using hrest
  rw [run, List.takeWhile_append_of_pos (by simpa using hcs), hnone, List.append_nil]

/-- What holds of every ASCII character holds of a character that is one. -/
theorem of_ascii {P : Char → Prop} (h : ∀ n : Fin 128, P (Char.ofNat n)) {c : Char}
    (hc : c.toNat < 128) : P c := by
  have := h ⟨c.toNat, hc⟩
  rwa [Char.ofNat_toNat] at this

/-- Names are written in ASCII. -/
theorem ascii_of_isNamePart {c : Char} (h : isNamePart c = true) : c.toNat < 128 := by
  unfold isNamePart Char.isAlphanum Char.isAlpha Char.isUpper Char.isLower Char.isDigit at h
  simp only [Bool.or_eq_true, Bool.and_eq_true, decide_eq_true_eq, beq_iff_eq, ge_iff_le,
    UInt32.le_iff_toNat_le] at h
  rcases h with ((h | h) | h) | rfl
  · exact Nat.lt_of_le_of_lt h.2 (by decide)
  · exact Nat.lt_of_le_of_lt h.2 (by decide)
  · exact Nat.lt_of_le_of_lt h.2 (by decide)
  · decide

theorem isBlank_of_isNamePart {c : Char} (h : isNamePart c = true) : Text.isBlank c = false :=
  of_ascii (P := fun d => isNamePart d = true → Text.isBlank d = false) (by decide)
    (ascii_of_isNamePart h) h

theorem isNamePart_of_isNameStart {c : Char} (h : isNameStart c = true) : isNamePart c = true := by
  simp only [isNameStart, isNamePart, Char.isAlphanum, Bool.or_eq_true] at h ⊢
  tauto

/-- The kinds of names. -/
def Kind.isNameKind (k : Kind) : Bool := k == .identifier || k.isKeyword

/-- Every word is a name or a keyword. -/
theorem Kind.isNameKind_ofWord (word : String) : (Kind.ofWord word).isNameKind = true :=
  Piece.ofWord_induction (P := fun kind => kind.isNameKind = true) rfl (by decide) word

/-- A character that starts a name starts nothing else. -/
theorem first_nameStart {c : Char} (hc : isNameStart c = true) (fresh : Bool) (rest : List Char) :
    first fresh c rest = (.plain (.ofWord (.ofList (c :: rest.take (run isNamePart rest)))),
      run isNamePart rest) := by
  -- What starts a name is ASCII, so these tests are decided by going through it.
  obtain ⟨hblank, hdigit, hmarks⟩ : Text.isBlank c = false ∧ c.isDigit = false ∧
      c ∉ ['/', '#', '$', '.', '0'] :=
    of_ascii (P := fun d => isNameStart d = true → Text.isBlank d = false ∧ d.isDigit = false ∧
      d ∉ ['/', '#', '$', '.', '0']) (by decide)
      (ascii_of_isNamePart (isNamePart_of_isNameStart hc)) hc
  simp only [List.mem_cons, List.not_mem_nil, or_false, not_or] at hmarks
  obtain ⟨hslash, hhash, hdollar, hpoint, hzero⟩ := hmarks
  have hhex : Piece.hexLength (c :: rest) = 0 := by
    unfold Piece.hexLength
    split
    · next heq => exact absurd (List.cons.inj heq).1 hzero
    · next heq => exact absurd (List.cons.inj heq).1 hdollar
    · rfl
  have hdecimal : Piece.decimalLength (c :: rest) = 0 := by
    have hwhole : run Char.isDigit (c :: rest) = 0 := by simp [run, hdigit]
    have hfraction : Piece.fractionLength (c :: rest) = 0 := by
      unfold Piece.fractionLength
      split
      · next heq => exact absurd (List.cons.inj heq).1 hpoint
      · rfl
    simp [Piece.decimalLength, hwhole, hfraction]
  simp [first, firstToken, hblank, hslash, hhash, hhex, hdecimal, hc]

/-- A name or keyword stands alone unless it goes on. -/
theorem Scans.name {text : List Char} (h : IsName text) :
    Scans endsName text [⟨.ofWord (.ofList text), .ofList text⟩] := by
  obtain ⟨c, cs, rfl, hstart, hparts⟩ := h.exists_cons
  refine Scans.of_first (.plain (.ofWord (.ofList (c :: cs)))) rfl ?_
  intro fresh rest hrest
  rw [first_nameStart hstart, run_append hparts hrest, List.take_left]

/-! ## Symbols -/

/-- The symbols that nothing can make longer. -/
def closedSymbols : List (Char × Kind) := [
  ('[', .openBracket), (']', .closeBracket), ('\x7b', .openCurly), ('\x7d', .closeCurly),
  (';', .semicolon), (':', .colon), (',', .comma), ('-', .dash)]

/-- A symbol that no other one starts with is scanned whatever follows. -/
theorem Scans.symbol {c : Char} {kind : Kind} (h : (c, kind) ∈ closedSymbols) :
    Scans anything [c] [⟨kind, .ofList [c]⟩] := by
  refine Scans.of_first (.plain kind) rfl ?_
  intro fresh rest _
  simp only [closedSymbols, List.mem_cons, Prod.mk.injEq, List.not_mem_nil, or_false] at h
  rcases h with ⟨rfl, rfl⟩ | ⟨rfl, rfl⟩ | ⟨rfl, rfl⟩ | ⟨rfl, rfl⟩ | ⟨rfl, rfl⟩ | ⟨rfl, rfl⟩ |
    ⟨rfl, rfl⟩ | ⟨rfl, rfl⟩ <;> rfl

/-- A sign of equality, unless a second one follows. -/
theorem Scans.equals : Scans (· != '=') ['='] [⟨.assignment, "="⟩] := by
  refine Scans.of_first (.plain .assignment) rfl ?_
  intro fresh rest hrest
  have hsymbol : Piece.symbol? '=' rest = some (.assignment, 0) := by
    unfold Piece.symbol?
    split
    all_goals first | rfl | (exfalso; simp_all [follows_cons])
  unfold Piece.first Piece.firstToken
  rw [List.nil_append, hsymbol]
  rfl

theorem Scans.plusEquals : Scans anything ['+', '='] [⟨.plusEquals, "+="⟩] := by
  refine Scans.of_first (.plain .plusEquals) rfl ?_
  intro fresh rest _
  rfl

/-! ## Strings -/

/-- A string in which its quotes are doubled is read to its last quote. -/
theorem stringBody_doubled (quote : Char) (value rest : List Char)
    (hrest : Follows (· != quote) rest) :
    Piece.stringBody quote (Text.doubled quote value ++ quote :: rest) =
      (value, (Text.doubled quote value).length + 1, true) := by
  induction value with
  | nil =>
    cases rest with
    | nil => simp [Text.doubled, Piece.stringBody]
    | cons d rest =>
      rw [follows_cons, bne_iff_ne] at hrest
      simp [Text.doubled, Piece.stringBody, hrest]
  | cons c value ih =>
    have hcons : Text.doubled quote (c :: value) =
        (if c = quote then [c, c] else [c]) ++ Text.doubled quote value := rfl
    rw [hcons]
    by_cases hc : c = quote
    · subst hc
      simp [Piece.stringBody, ih]
    · rw [if_neg hc, List.append_assoc, List.singleton_append, Piece.stringBody.eq_def]
      simp [hc, ih]

/-- Between quotes, with the quotes in it doubled, any text is a string. -/
theorem Scans.string (value : List Char) :
    Scans (· != '"') ('"' :: (Text.doubled '"' value ++ ['"'])) [⟨.string, .ofList value⟩] := by
  refine Scans.of_first (.string value) rfl ?_
  intro fresh rest hrest
  have hbody := stringBody_doubled '"' value rest hrest
  rw [List.append_assoc, List.singleton_append, List.length_append]
  unfold Piece.first Piece.firstToken
  rw [hbody]
  rfl

/-! ## Decimal numerals -/

/-- A point with digits behind it, or nothing. -/
inductive IsFraction : List Char → Prop
  | none : IsFraction []
  | digits {ds : List Char} (hne : ds ≠ []) (h : ds.all Char.isDigit = true) :
    IsFraction ('.' :: ds)

/-- A mark, an optional sign and digits, or nothing. -/
inductive IsExponent : List Char → Prop
  | none : IsExponent []
  | digits {mark : Char} {sign ds : List Char} (hmark : mark = 'e' ∨ mark = 'E')
    (hsign : sign ∈ [[], ['+'], ['-']]) (hne : ds ≠ []) (h : ds.all Char.isDigit = true) :
    IsExponent (mark :: (sign ++ ds))

/-- Digits, perhaps with a fraction and an exponent. The fraction may stand alone. -/
def IsDecimal (text : List Char) : Prop :=
  ∃ whole fraction exponent, text = whole ++ (fraction ++ exponent) ∧
    whole.all Char.isDigit = true ∧ IsFraction fraction ∧ IsExponent exponent ∧
    whole ++ fraction ≠ []

/-- A decimal numeral starts with a digit or a point. -/
theorem IsDecimal.exists_cons {text : List Char} (h : IsDecimal text) :
    ∃ c cs, text = c :: cs ∧ (c.isDigit = true ∨ c = '.') := by
  obtain ⟨whole, fraction, exponent, rfl, hwhole, hfraction, _, hne⟩ := h
  cases whole with
  | cons c whole =>
    rw [List.all_cons, Bool.and_eq_true] at hwhole
    exact ⟨c, _, rfl, .inl hwhole.1⟩
  | nil =>
    cases hfraction with
    | none => exact absurd rfl hne
    | digits => exact ⟨'.', _, rfl, .inr rfl⟩

/-- What does not go on a numeral. -/
def endsNumber (c : Char) : Bool := !isNamePart c && c != '.'

theorem isDigit_of_endsNumber {c : Char} (h : endsNumber c = true) : c.isDigit = false := by
  simp only [endsNumber, isNamePart, Char.isAlphanum, Bool.and_eq_true, Bool.not_eq_true',
    Bool.or_eq_false_iff] at h
  exact h.1.1.2

/-- Neither a digit nor a point follows the fraction. -/
theorem IsExponent.follows {exponent rest : List Char} (h : IsExponent exponent)
    (hrest : Follows endsNumber rest) :
    Follows (fun c => !c.isDigit && c != '.') (exponent ++ rest) := by
  cases h with
  | none =>
    refine hrest.mono fun c hc => ?_
    rw [isDigit_of_endsNumber hc]
    exact (Bool.and_eq_true_iff.1 hc).2
  | digits hmark =>
    rw [List.cons_append, follows_cons]
    rcases hmark with rfl | rfl <;> rfl

/-- No digit follows those before the point. -/
theorem IsFraction.follows {fraction rest : List Char} (h : IsFraction fraction)
    (hrest : Follows (fun c => !c.isDigit && c != '.') rest) :
    Follows (fun c => !c.isDigit) (fraction ++ rest) := by
  cases h with
  | none => exact hrest.mono fun c hc => (Bool.and_eq_true_iff.1 hc).1
  | digits => exact follows_cons.2 rfl

/-- A fraction is read to its end, if neither a digit nor a point follows. -/
theorem fractionLength_append {fraction rest : List Char} (h : IsFraction fraction)
    (hrest : Follows (fun c => !c.isDigit && c != '.') rest) :
    Piece.fractionLength (fraction ++ rest) = fraction.length := by
  cases h with
  | none =>
    rw [List.nil_append]
    unfold Piece.fractionLength
    split
    · rw [follows_cons] at hrest
      cases hrest
    · rfl
  | @digits ds hne hds =>
    have hrun : run Char.isDigit (ds ++ rest) = ds.length :=
      run_append hds (hrest.mono fun c hc => (Bool.and_eq_true_iff.1 hc).1)
    have hlength : ds.length ≠ 0 := fun hzero => hne (List.length_eq_zero_iff.1 hzero)
    simp [Piece.fractionLength, hrun, hlength]

/-- So is an exponent, which may be missing. -/
theorem exponentLength_append {exponent rest : List Char} (h : IsExponent exponent)
    (hrest : Follows endsNumber rest) :
    Piece.exponentLength (exponent ++ rest) = exponent.length := by
  have hdigits : Follows (fun c => !c.isDigit) rest :=
    hrest.mono fun c hc => by simp [isDigit_of_endsNumber hc]
  cases h with
  | none =>
    cases rest with
    | nil => rfl
    | cons c rest =>
      rw [follows_cons] at hrest
      have hmark : ¬ (c = 'e' ∨ c = 'E') := by
        rintro (rfl | rfl) <;> cases hrest
      simp only [not_or] at hmark
      simp [Piece.exponentLength, hmark]
  | @digits mark sign ds hmark hsign hne hds =>
    have hrun : run Char.isDigit (ds ++ rest) = ds.length := run_append hds hdigits
    have hlength : ds.length ≠ 0 := fun hzero => hne (List.length_eq_zero_iff.1 hzero)
    simp only [List.mem_cons, List.not_mem_nil, or_false] at hsign
    -- The digits may stand behind a sign or alone.
    rcases hsign with rfl | rfl | rfl
    · -- Without a sign the first digit stands behind the mark.
      cases ds with
      | nil => exact absurd rfl hne
      | cons d ds =>
        have hd : d.isDigit = true := by
          rw [List.all_cons, Bool.and_eq_true] at hds
          exact hds.1
        have hplus : d ≠ '+' := by rintro rfl; cases hd
        have hminus : d ≠ '-' := by rintro rfl; cases hd
        rw [List.cons_append] at hrun
        simp [Piece.exponentLength, hmark, hplus, hminus, hrun]
    · simp [Piece.exponentLength, hmark, hrun, hne]
    · simp [Piece.exponentLength, hmark, hrun, hne]

/-- So is a whole number with both. -/
theorem decimalLength_append {text rest : List Char} (h : IsDecimal text)
    (hrest : Follows endsNumber rest) : Piece.decimalLength (text ++ rest) = text.length := by
  obtain ⟨whole, fraction, exponent, rfl, hwhole, hfraction, hexponent, hne⟩ := h
  have hexponentFollows := hexponent.follows hrest
  have hwholeRun := run_append hwhole (hfraction.follows hexponentFollows)
  have hfractionLength := fractionLength_append hfraction hexponentFollows
  have hexponentLength := exponentLength_append hexponent hrest
  -- An exponent alone would be no number.
  have hlength : whole.length + fraction.length ≠ 0 := by
    intro hzero
    apply hne
    rw [← List.length_eq_zero_iff, List.length_append, hzero]
  have hassoc : whole ++ (fraction ++ exponent) ++ rest =
      whole ++ (fraction ++ (exponent ++ rest)) := by
    simp only [List.append_assoc]
  have hdrop : (whole ++ (fraction ++ (exponent ++ rest))).drop (whole.length + fraction.length) =
      exponent ++ rest := by
    rw [← List.append_assoc whole, ← List.length_append, List.drop_left]
  rw [hassoc, Piece.decimalLength]
  simp only [hwholeRun, List.drop_left, hfractionLength, hlength, hdrop, hexponentLength,
    ↓reduceIte, List.length_append]
  omega

/-- The characters of decimal numerals. -/
def isDecimalPart (c : Char) : Bool := c.isDigit || ['.', 'e', 'E', '+', '-'].contains c

theorem IsDecimal.all {text : List Char} (h : IsDecimal text) : text.all isDecimalPart = true := by
  obtain ⟨whole, fraction, exponent, rfl, hwhole, hfraction, hexponent, _⟩ := h
  have hdigits : ∀ {ds : List Char}, ds.all Char.isDigit = true → ds.all isDecimalPart = true := by
    intro ds hds
    rw [List.all_eq_true] at hds ⊢
    intro d hd
    simp [isDecimalPart, hds d hd]
  rw [List.all_append, List.all_append, hdigits hwhole, Bool.true_and, Bool.and_eq_true]
  constructor
  · cases hfraction with
    | none => rfl
    | digits _ hds => rw [List.all_cons, hdigits hds]; rfl
  · cases hexponent with
    | none => rfl
    | digits hmark hsign _ hds =>
      simp only [List.mem_cons, List.not_mem_nil, or_false] at hsign
      rw [List.all_cons, List.all_append, hdigits hds]
      rcases hmark with rfl | rfl <;> rcases hsign with rfl | rfl | rfl <;> rfl

/-- A decimal numeral is none in hexadecimal. -/
theorem hexLength_decimal {text rest : List Char} (h : IsDecimal text)
    (hrest : Follows endsNumber rest) : Piece.hexLength (text ++ rest) = 0 := by
  have hall := h.all
  obtain ⟨c, cs, rfl, hc⟩ := h.exists_cons
  -- A number that starts with a zero could be hexadecimal, if an `x` stood behind it.
  have hsecond : ∀ x more, cs ++ rest = x :: more → ¬ (x = 'x' ∨ x = 'X') := by
    intro x more heq
    cases cs with
    | nil =>
      rw [← List.nil_append rest, heq, follows_cons] at hrest
      rintro (rfl | rfl) <;> cases hrest
    | cons d cs =>
      simp only [List.all_cons, Bool.and_eq_true] at hall
      rcases List.cons.inj heq with ⟨rfl, _⟩
      rintro (rfl | rfl) <;> cases hall.2.1
  rw [List.cons_append]
  unfold Piece.hexLength
  split
  · next x more heq =>
    have hx := hsecond x more (List.cons.inj heq).2
    simp only [not_or] at hx
    simp [hx]
  · next more heq =>
    rcases (List.cons.inj heq).1 with rfl
    rcases hc with hc | hc <;> cases hc
  · rfl

/-- A decimal numeral stands alone unless it goes on. -/
theorem Scans.number {text : List Char} (h : IsDecimal text) :
    Scans endsNumber text [⟨.number, .ofList text⟩] := by
  obtain ⟨c, cs, rfl, hc⟩ := h.exists_cons
  have hascii : c.toNat < 128 := by
    rcases hc with hc | rfl
    · exact ascii_of_isNamePart (by simp [isNamePart, Char.isAlphanum, hc])
    · decide
  obtain ⟨hblank, hslash, hhash⟩ : Text.isBlank c = false ∧ c ≠ '/' ∧ c ≠ '#' :=
    of_ascii (P := fun d => d.isDigit = true ∨ d = '.' →
      Text.isBlank d = false ∧ d ≠ '/' ∧ d ≠ '#') (by decide) hascii hc
  refine Scans.of_first (.plain .number) rfl ?_
  intro fresh rest hrest
  have hhex : Piece.hexLength (c :: (cs ++ rest)) = 0 := hexLength_decimal h hrest
  have hdecimal : Piece.decimalLength (c :: (cs ++ rest)) = cs.length + 1 :=
    decimalLength_append h hrest
  simp [first, firstToken, hblank, hslash, hhash, hhex, hdecimal]

end Sqf
