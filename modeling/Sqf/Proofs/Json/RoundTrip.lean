import Sqf.Json.Printer
import Sqf.Json.Reader
import Sqf.Proofs.Token.Numerals

/-!
# Reading back what is printed

A value whose texts are texts and whose numbers follow the grammar (`Printable`) is read
back from its print over several lines, blanks behind it allowed (`read?_pretty`). The
induction is on the value. Its invariant `ReadsBack` speaks of the print at any level of nesting
and in front of any text that does not go on a number; the reader's fuel is bounded by
the length of what it has to read.
-/

namespace Sqf.Json

/-! ## Texts -/

/-- The escape of a control spells its code. -/
theorem codeUnit?_control {n : Nat} (h : n < 0x20) :
    codeUnit? '0' '0' (Text.hexDigit (n / 16)) (Text.hexDigit (n % 16)) = some n := by
  have hzero : Text.hexValue? '0' = some 0 := by decide
  have hhigh := Text.hexValue?_hexDigit (show n / 16 < 16 by omega)
  have hlow := Text.hexValue?_hexDigit (show n % 16 < 16 by omega)
  simp only [codeUnit?, hzero, hhigh, hlow, Option.bind_eq_bind, Option.bind_some, Option.pure_def,
    Option.some.injEq]
  omega

/-- An escape with a single letter is read as what the letter stands for. -/
theorem readUnits?_letter {e c : Char} (h : escaped? e = some c) (hu : e ≠ 'u') (cs : List Char) :
    readUnits? ('\\' :: e :: cs) =
      (readUnits? cs).map fun (units, rest) => (c.toNat :: units, rest) := by
  cases hread : readUnits? cs <;> simp [readUnits?, hu, h, hread]

/-- The unit that is read of a written character is its code. -/
theorem readUnits?_escapeChar (c : Char) (cs : List Char) :
    readUnits? (escapeChar c ++ cs) =
      (readUnits? cs).map fun (units, rest) => (c.toNat :: units, rest) := by
  unfold escapeChar
  -- Only the last case is no letter behind a backslash: a control character or one that stands for
  -- itself.
  split
  case h_8 hquote hbackslash _ _ _ _ _ =>
    split
    · next hcontrol =>
      cases h : readUnits? cs <;> simp [readUnits?, codeUnit?_control hcontrol, h]
    · next hcontrol =>
      have hplain : c.toNat < 0x20 ∨ c = '\\' ↔ False := by simpa using ⟨by omega, hbackslash⟩
      rw [List.singleton_append, readUnits?.eq_def]
      split
      · next heq => cases heq
      · next heq => exact absurd (List.cons.inj heq).1 hquote
      · next heq => exact absurd (List.cons.inj heq).1 hbackslash
      · next heq => exact absurd (List.cons.inj heq).1 hbackslash
      · next heq =>
        obtain ⟨rfl, rfl⟩ := List.cons.inj heq
        cases h : readUnits? cs <;> simp [hplain]
  all_goals exact readUnits?_letter rfl (by decide) cs

/-- The characters of a text are read back up to its closing quote. -/
theorem readUnits?_printed (cs rest : List Char) :
    readUnits? (cs.flatMap escapeChar ++ '"' :: rest) = some (cs.map Char.toNat, rest) := by
  induction cs with
  | nil => simp [readUnits?]
  | cons c cs ih =>
    rw [List.flatMap_cons, List.append_assoc, readUnits?_escapeChar, ih]
    rfl

/-- The code of a character is no half of a surrogate pair. -/
theorem not_surrogate (c : Char) : isLeading c.toNat = false ∧ isTrailing c.toNat = false := by
  have hvalid : c.toNat < 0xD800 ∨ 0xDFFF < c.toNat ∧ c.toNat < 0x110000 := c.valid
  simp only [isLeading, isTrailing, Bool.and_eq_false_iff, decide_eq_false_iff_not]
  omega

/-- The code units of characters that are no surrogates make these characters again. -/
theorem textOf?_toNat (cs : List Char) : textOf? (cs.map Char.toNat) = some cs := by
  induction cs with
  | nil => rfl
  | cons c cs ih =>
    obtain ⟨hleading, htrailing⟩ := not_surrogate c
    rw [List.map_cons, textOf?.eq_def]
    simp [hleading, htrailing, ih, Char.ofNat_toNat]

/-- A text is read back from its characters and the closing quote. -/
theorem readText?_printed (s : String) (rest : List Char) :
    readText? (s.toList.flatMap escapeChar ++ '"' :: rest) = some (some s, rest) := by
  simp [readText?, readUnits?_printed, textOf?_toNat]

theorem toList_printText (s : String) :
    (printText s).toList = '"' :: (s.toList.flatMap escapeChar ++ ['"']) := by
  rw [printText, String.toList_ofList]

/-! ## Numbers -/

/-- A number as the grammar has it: the digits before the point start with a zero only if
that is all there is. -/
inductive IsLiteral : List Char → Prop
  | parts {sign whole fraction exponent : List Char} (hsign : sign ∈ [[], ['-']])
    (hwhole : whole.all Char.isDigit = true) (hne : whole ≠ [])
    (hzero : whole.head? = some '0' → whole = ['0']) (hfraction : IsFraction fraction)
    (hexponent : IsExponent exponent) : IsLiteral (sign ++ whole ++ fraction ++ exponent)

/-- Digits are read up to what is no digit. -/
theorem readDigits?_append {ds rest : List Char} (hne : ds ≠ []) (hds : ds.all Char.isDigit = true)
    (hrest : Follows (fun c => !c.isDigit) rest) : readDigits? (ds ++ rest) = some (ds, rest) := by
  unfold readDigits?
  rw [Numeral.takeWhile_append hds hrest, Numeral.dropWhile_append hds hrest]
  split
  · exact absurd rfl hne
  · rfl

/-- A whole number has no leading zero. -/
theorem readWhole?_append {whole rest : List Char} (hne : whole ≠ [])
    (hwhole : whole.all Char.isDigit = true) (hzero : whole.head? = some '0' → whole = ['0'])
    (hrest : Follows (fun c => !c.isDigit) rest) :
    readWhole? (whole ++ rest) = some (whole, rest) := by
  unfold readWhole?
  split
  · next cs heq =>
    obtain ⟨c, ds, rfl⟩ := List.exists_cons_of_ne_nil hne
    obtain ⟨rfl, rfl⟩ := List.cons.inj heq
    obtain rfl : ds = [] := (List.cons.inj (hzero rfl)).2
    have hdigit : rest.head?.any Char.isDigit = false := by
      cases rest with
      | nil => rfl
      | cons d ds => simpa using follows_cons.1 hrest
    simp [hdigit]
  · exact readDigits?_append hne hwhole hrest

/-- A fraction is read to its end. -/
theorem readFraction?_append {fraction rest : List Char} (h : IsFraction fraction)
    (hrest : Follows (fun c => !c.isDigit && c != '.') rest) :
    readFraction? (fraction ++ rest) = some (fraction, rest) := by
  cases h with
  | none =>
    unfold readFraction?
    split
    · next heq =>
      rw [List.nil_append] at heq
      rw [heq, follows_cons] at hrest
      cases hrest
    · rfl
  | digits hne hds =>
    have hends := hrest.mono fun c hc => (Bool.and_eq_true_iff.1 hc).1
    simp [readFraction?, readDigits?_append hne hds hends]

/-- So is an exponent. -/
theorem readExponent?_append {exponent rest : List Char} (h : IsExponent exponent)
    (hrest : Follows endsNumber rest) :
    readExponent? (exponent ++ rest) = some (exponent, rest) := by
  cases h with
  | none =>
    cases rest with
    | nil => rfl
    | cons c rest =>
      have hmark : ¬ (c = 'e' ∨ c = 'E') := by
        rw [follows_cons] at hrest
        rintro (rfl | rfl) <;> cases hrest
      simp [readExponent?, hmark]
  | @digits mark sign ds hmark hsign hne hds =>
    have hdigits := readDigits?_append hne hds
      (hrest.mono fun c hc => by simp [isDigit_of_endsNumber hc])
    have hmark : (decide (mark = 'e') || decide (mark = 'E')) = true := by simpa using hmark
    simp only [List.mem_cons, List.not_mem_nil, or_false] at hsign
    rcases hsign with rfl | rfl | rfl
    · -- The first digit is no sign.
      obtain ⟨d, ds, rfl⟩ := List.exists_cons_of_ne_nil hne
      have hd : d.isDigit = true := (Bool.and_eq_true_iff.1 (List.all_cons ▸ hds)).1
      have hplus : d ≠ '+' := by rintro rfl; cases hd
      have hminus : d ≠ '-' := by rintro rfl; cases hd
      rw [List.cons_append] at hdigits
      simp [readExponent?, hmark, hplus, hminus, hdigits]
    · simp [readExponent?, hmark, hdigits]
    · simp [readExponent?, hmark, hdigits]

/-- A number is read as it is written. -/
theorem readNumber?_append {literal rest : List Char} (h : IsLiteral literal)
    (hrest : Follows endsNumber rest) :
    readNumber? (literal ++ rest) = some (number (.ofList literal), rest) := by
  cases h with
  | @parts sign whole fraction exponent hsign hwhole hne hzero hfraction hexponent =>
    have hbehind := hexponent.follows hrest
    have hreadWhole := readWhole?_append hne hwhole hzero (hfraction.follows hbehind)
    have hreadFraction := readFraction?_append hfraction hbehind
    have hreadExponent := readExponent?_append hexponent hrest
    simp only [List.mem_cons, List.not_mem_nil, or_false] at hsign
    -- A number may start with a minus or with its first digit.
    rcases hsign with rfl | rfl
    · obtain ⟨d, ds, rfl⟩ := List.exists_cons_of_ne_nil hne
      have hd : d.isDigit = true := (Bool.and_eq_true_iff.1 (List.all_cons ▸ hwhole)).1
      have hminus : d ≠ '-' := by rintro rfl; cases hd
      simp only [List.nil_append, List.cons_append, List.append_assoc] at hreadWhole ⊢
      simp [readNumber?, hminus, hreadWhole, hreadFraction, hreadExponent,
        -String.ofList_append, -String.ofList_cons]
    · simp [readNumber?, hreadWhole, hreadFraction, hreadExponent,
        -String.ofList_append, -String.ofList_cons]

/-- A number starts with its sign or a digit. -/
theorem IsLiteral.exists_cons {literal : List Char} (h : IsLiteral literal) :
    ∃ c cs, literal = c :: cs ∧ (c = '-' ∨ c.isDigit = true) := by
  cases h with
  | @parts _ whole _ _ hsign hwhole hne =>
    obtain ⟨d, ds, rfl⟩ := List.exists_cons_of_ne_nil hne
    rw [List.all_cons, Bool.and_eq_true] at hwhole
    simp only [List.mem_cons, List.not_mem_nil, or_false] at hsign
    rcases hsign with rfl | rfl
    · exact ⟨d, _, rfl, .inr hwhole.1⟩
    · exact ⟨'-', _, rfl, .inl rfl⟩

/-- Such a start is no blank, and no other value or bracket starts with it. -/
theorem not_mem_of_literalStart {c : Char} (h : c = '-' ∨ c.isDigit = true) :
    isSpace c = false ∧ c ∉ ['n', 't', 'f', '"', '[', '\x7b', ']'] := by
  constructor
  · rw [Bool.eq_false_iff]
    intro hspace
    simp only [isSpace, Bool.or_eq_true, beq_iff_eq] at hspace
    rcases hspace with ((rfl | rfl) | rfl) | rfl <;> revert h <;> decide
  · intro hmem
    simp only [List.mem_cons, List.not_mem_nil, or_false] at hmem
    rcases hmem with rfl | rfl | rfl | rfl | rfl | rfl | rfl <;> revert h <;> decide

/-- A natural number is written without leading zeros. -/
theorem head?_toDigits {n : Nat} (h : 0 < n) : (Nat.toDigits 10 n).head? ≠ some '0' := by
  induction n using Nat.strong_induction_on with
  | _ n ih =>
    by_cases hsmall : n < 10
    · have all : ∀ k : Fin 10, 0 < k.val → k.val.digitChar ≠ '0' := by decide
      rw [Nat.toDigits_of_lt_base hsmall]
      simpa using all ⟨n, hsmall⟩ h
    · have hfirst := ih (n / 10) (by omega) (by omega)
      obtain ⟨c, ds, hdigits⟩ := List.exists_cons_of_ne_nil (Nat.toDigits_ne_nil (n := n / 10))
      rw [Nat.toDigits_of_base_le (by decide) (by omega)]
      rwa [hdigits] at hfirst ⊢

/-- A natural number is written as a number of JSON. -/
theorem isLiteral_toString (n : Nat) : IsLiteral (toString n).toList := by
  rw [Nat.toString_eq_ofList_toDigits, String.toList_ofList]
  have hdigits : (Nat.toDigits 10 n).all Char.isDigit = true :=
    List.all_eq_true.2 fun _ h => Nat.isDigit_of_mem_toDigits (by decide) (by decide) h
  have hzero : (Nat.toDigits 10 n).head? = some '0' → Nat.toDigits 10 n = ['0'] := by
    intro h
    rcases Nat.eq_zero_or_pos n with rfl | hpos
    · rfl
    · exact absurd h (head?_toDigits hpos)
  simpa using @IsLiteral.parts [] _ _ _ (by simp) hdigits Nat.toDigits_ne_nil hzero .none .none

/-! ## Blanks -/

/-- Blanks are skipped. -/
theorem skipSpace_append {blanks : List Char} (h : blanks.all isSpace = true) (cs : List Char) :
    skipSpace (blanks ++ cs) = skipSpace cs :=
  List.dropWhile_append_of_pos (List.all_eq_true.1 h)

theorem skipSpace_cons {c : Char} (h : isSpace c = false) (cs : List Char) :
    skipSpace (c :: cs) = c :: cs := by
  simp [skipSpace, h]

theorem isSpace_newLine (level : Nat) : (newLine level).toList.all isSpace = true := by
  simp [newLine, isSpace]

/-- Blanks in front of a value are skipped. -/
theorem readValue?_skip {blanks : List Char} (h : blanks.all isSpace = true) (fuel : Nat)
    (cs : List Char) : readValue? fuel (blanks ++ cs) = readValue? fuel cs := by
  cases fuel with
  | zero => simp only [readValue?]
  | succ fuel => simp only [readValue?, skipSpace_append h]

theorem readItems?_skip {blanks : List Char} (h : blanks.all isSpace = true) (fuel : Nat)
    (cs : List Char) : readItems? fuel (blanks ++ cs) = readItems? fuel cs := by
  cases fuel with
  | zero => simp only [readItems?]
  | succ fuel => simp only [readItems?, readValue?_skip h]

theorem readMembers?_skip {blanks : List Char} (h : blanks.all isSpace = true) (fuel : Nat)
    (cs : List Char) : readMembers? fuel (blanks ++ cs) = readMembers? fuel cs := by
  cases fuel with
  | zero => simp only [readMembers?]
  | succ fuel => simp only [readMembers?, skipSpace_append h]

/-! ## Values -/

/-- What can be printed so that nothing is lost: texts are texts, and numbers follow the
grammar. -/
inductive Printable : Json → Prop
  | null : Printable null
  | bool (b : Bool) : Printable (bool b)
  | number {literal : String} : IsLiteral literal.toList → Printable (number literal)
  | str (s : String) : Printable (str s)
  | array {items : List Json} : (∀ item ∈ items, Printable item) → Printable (array items)
  | object {members : List (String × Json)} :
      (∀ member ∈ members, Printable member.2) → Printable (obj members)

theorem Printable.nat (n : Nat) : Printable (nat n) := .number (isLiteral_toString n)

theorem Printable.sortedObj {members : List (String × Json)}
    (h : ∀ member ∈ members, Printable member.2) : Printable (sortedObj members) :=
  .object fun member hmember => h member (List.mem_mergeSort.1 hmember)

/-- The print of the value is read back, at whatever level it stands, if no number goes on behind
it. Two calls for each of its characters are enough. -/
def ReadsBack (value : Json) : Prop :=
  ∀ level fuel rest, Follows endsNumber rest → 2 * (value.prettyAt level).toList.length ≤ fuel →
    readValue? fuel ((value.prettyAt level).toList ++ rest) = some (value, rest)

/-- The parts between two brackets, each but the last with a comma and a new line behind it. -/
def lines (level : Nat) (parts : List String) : List Char :=
  (String.intercalate ("," ++ newLine level) parts).toList

theorem lines_singleton (level : Nat) (part : String) : lines level [part] = part.toList := by
  rw [lines, String.intercalate_singleton]

theorem lines_cons_cons (level : Nat) (part next : String) (parts : List String) :
    lines level (part :: next :: parts) =
      part.toList ++ ',' :: ((newLine level).toList ++ lines level (next :: parts)) := by
  simp [lines, String.toList_intercalate]

/-- A list is printed with one part on a line. -/
theorem toList_spread (level : Nat) (opening closing : String) {parts : List String}
    (hne : parts ≠ []) :
    (spread level opening closing parts).toList =
      opening.toList ++ ((newLine (level + 1)).toList ++
        (lines (level + 1) parts ++ ((newLine level).toList ++ closing.toList))) := by
  rw [spread, if_neg (by simpa using hne)]
  simp only [String.toList_append, lines, List.append_assoc]

theorem exists_toList_spread (level : Nat) (opening closing : String) (parts : List String) :
    ∃ cs, (spread level opening closing parts).toList = opening.toList ++ cs := by
  by_cases hparts : parts = []
  · exact ⟨closing.toList, by simp [spread, hparts]⟩
  · exact ⟨_, toList_spread level opening closing hparts⟩

/-- A printed value starts with no blank, and not with a closing bracket. -/
theorem Printable.exists_cons {value : Json} (h : Printable value) (level : Nat) :
    ∃ c cs, (value.prettyAt level).toList = c :: cs ∧ isSpace c = false ∧ c ≠ ']' := by
  cases h with
  | null => exact ⟨'n', ['u', 'l', 'l'], by simp [prettyAt, compact], rfl, by decide⟩
  | bool b =>
    cases b with
    | true => exact ⟨'t', ['r', 'u', 'e'], by simp [prettyAt, compact], rfl, by decide⟩
    | false => exact ⟨'f', ['a', 'l', 's', 'e'], by simp [prettyAt, compact], rfl, by decide⟩
  | @number literal h =>
    obtain ⟨c, cs, hliteral, hc⟩ := h.exists_cons
    obtain ⟨hspace, hspecial⟩ := not_mem_of_literalStart hc
    exact ⟨c, cs, by simpa [prettyAt, compact] using hliteral, hspace,
      ne_of_mem_of_not_mem (by simp) hspecial |>.symm⟩
  | str s =>
    have htext : ((Json.str s).prettyAt level).toList =
        '"' :: (s.toList.flatMap escapeChar ++ ['"']) := toList_printText s
    exact ⟨'"', _, htext, rfl, by decide⟩
  | array =>
    rw [prettyAt]
    obtain ⟨cs, hcs⟩ := exists_toList_spread level "[" "]" (prettyItems (level + 1) _)
    exact ⟨'[', cs, hcs, rfl, by decide⟩
  | object =>
    rw [obj, prettyAt]
    obtain ⟨cs, hcs⟩ := exists_toList_spread level "\x7b" "\x7d" (prettyMembers (level + 1) _)
    exact ⟨'\x7b', cs, hcs, rfl, by decide⟩

/-- A number does not go on in the next line. -/
theorem follows_newLine (level : Nat) (rest : List Char) :
    Follows endsNumber ((newLine level).toList ++ rest) := by
  rw [newLine, String.toList_ofList, List.cons_append, follows_cons]
  rfl

/-- Items are read back one by one, up to the bracket. -/
theorem readItems?_printed {items : List Json} (h : ∀ item ∈ items, ReadsBack item)
    (hne : items ≠ []) (level outer fuel : Nat) (rest : List Char)
    (hfuel : 2 * (lines level (prettyItems level items)).length + 1 ≤ fuel) :
    readItems? fuel (lines level (prettyItems level items) ++
      ((newLine outer).toList ++ ']' :: rest)) = some (items, rest) := by
  induction items generalizing fuel with
  | nil => exact absurd rfl hne
  | cons item items ih =>
    obtain ⟨fuel, rfl⟩ : ∃ k, fuel = k + 1 := ⟨fuel - 1, by omega⟩
    obtain ⟨hitem, hitems⟩ := List.forall_mem_cons.1 h
    cases items with
    | nil =>
      simp only [prettyItems, lines_singleton] at hfuel ⊢
      rw [readItems?, hitem level fuel _ (follows_newLine _ _) (by omega)]
      simp [skipSpace_append (isSpace_newLine outer), skipSpace_cons (c := ']') rfl]
    | cons next items =>
      have hitems := ih hitems (by simp) fuel
      simp only [prettyItems, lines_cons_cons, List.length_append, List.length_cons,
        List.append_assoc, List.cons_append] at hfuel hitems ⊢
      rw [readItems?, hitem level fuel _ (follows_cons.2 rfl) (by omega)]
      simp [skipSpace_cons (c := ',') rfl, readItems?_skip (isSpace_newLine level),
        hitems (by omega)]

/-- Members are read back one by one, up to the brace. -/
theorem readMembers?_printed {members : List (String × Json)}
    (h : ∀ member ∈ members, ReadsBack member.2) (hne : members ≠ [])
    (level outer fuel : Nat) (rest : List Char)
    (hfuel : 2 * (lines level (prettyMembers level
      (members.map fun (key, value) => (some key, value)))).length + 1 ≤ fuel) :
    readMembers? fuel (lines level (prettyMembers level
      (members.map fun (key, value) => (some key, value))) ++
        ((newLine outer).toList ++ '}' :: rest)) =
      some (members.map fun (key, value) => (some key, value), rest) := by
  induction members generalizing fuel with
  | nil => exact absurd rfl hne
  | cons member members ih =>
    obtain ⟨fuel, rfl⟩ : ∃ k, fuel = k + 1 := ⟨fuel - 1, by omega⟩
    obtain ⟨key, value⟩ := member
    obtain ⟨(hvalue : ReadsBack value), hmembers⟩ := List.forall_mem_cons.1 h
    have hblank (cs : List Char) : readValue? fuel (' ' :: cs) = readValue? fuel cs :=
      @readValue?_skip [' '] rfl fuel cs
    cases members with
    | nil =>
      simp only [List.map_cons, List.map_nil, prettyMembers, lines_singleton, Option.getD_some,
        String.toList_append, toList_printText, List.length_append, List.length_cons,
        List.append_assoc, List.cons_append] at hfuel ⊢
      rw [readMembers?, skipSpace_cons (c := '"') rfl]
      have hread := hvalue level fuel _ (follows_newLine outer ('}' :: rest)) (by omega)
      simp [readText?_printed, skipSpace_cons (c := ':') rfl, hblank, hread,
        skipSpace_append (isSpace_newLine outer), skipSpace_cons (c := '}') rfl]
    | cons next members =>
      have hmembers := ih hmembers (by simp) fuel
      simp only [List.map_cons, prettyMembers, lines_cons_cons, Option.getD_some,
        String.toList_append, toList_printText, List.length_append, List.length_cons,
        List.append_assoc, List.cons_append] at hfuel hmembers ⊢
      rw [readMembers?, skipSpace_cons (c := '"') rfl]
      have hread := fun rest => hvalue level fuel (',' :: rest) (follows_cons.2 rfl) (by omega)
      simp [readText?_printed, skipSpace_cons (c := ':') rfl, hblank, hread,
        skipSpace_cons (c := ',') rfl, readMembers?_skip (isSpace_newLine level),
        hmembers (by omega)]

theorem exists_lines_cons (level : Nat) (part : String) (parts : List String) :
    ∃ cs, lines level (part :: parts) = part.toList ++ cs := by
  cases parts with
  | nil => exact ⟨[], by rw [lines_singleton, List.append_nil]⟩
  | cons next parts => exact ⟨_, lines_cons_cons level part next parts⟩

theorem exists_lines_member (level : Nat) (key value : String) (parts : List String) :
    ∃ cs, lines level ((printText key ++ ": " ++ value) :: parts) = '"' :: cs := by
  obtain ⟨cs, hcs⟩ := exists_lines_cons level (printText key ++ ": " ++ value) parts
  rw [String.toList_append, String.toList_append, toList_printText] at hcs
  exact ⟨_, hcs⟩

/-- There is fuel for at least one call. -/
theorem Printable.exists_fuel {value : Json} (h : Printable value) {level fuel : Nat}
    (hfuel : 2 * (value.prettyAt level).toList.length ≤ fuel) : ∃ k, fuel = k + 1 := by
  obtain ⟨c, cs, hcons, -⟩ := h.exists_cons level
  rw [hcons, List.length_cons] at hfuel
  exact ⟨fuel - 1, by omega⟩

theorem readsBack_number {literal : String} (h : IsLiteral literal.toList) :
    ReadsBack (number literal) := by
  intro level fuel rest hrest hfuel
  obtain ⟨fuel, rfl⟩ := (Printable.number h).exists_fuel hfuel
  have hread := readNumber?_append h hrest
  obtain ⟨c, cs, hcons, hc⟩ := h.exists_cons
  obtain ⟨hspace, hspecial⟩ := not_mem_of_literalStart hc
  simp only [List.mem_cons, List.not_mem_nil, or_false, not_or] at hspecial
  rw [String.ofList_toList, hcons, List.cons_append] at hread
  rw [prettyAt, compact, hcons, List.cons_append, readValue?, skipSpace_cons hspace]
  · split <;> simp_all
  · simp
  · simp

/-- An array is read back if its items are. -/
theorem readsBack_array {items : List Json} (h : ∀ item ∈ items, Printable item)
    (ih : ∀ item ∈ items, ReadsBack item) : ReadsBack (array items) := by
  intro level fuel rest _ hfuel
  obtain ⟨fuel, rfl⟩ := (Printable.array h).exists_fuel hfuel
  cases items with
  | nil =>
    simp [prettyAt, prettyItems, spread, readValue?, skipSpace_cons (c := '[') rfl,
      skipSpace_cons (c := ']') rfl]
  | cons item items =>
    have hread := readItems?_printed ih (by simp) (level + 1) level fuel rest
    -- Behind the new line stands an item, and so not the bracket of an empty array.
    obtain ⟨c, cs, hitem, hspace, hc⟩ := (h item (by simp)).exists_cons (level + 1)
    obtain ⟨more, hlines⟩ := exists_lines_cons (level + 1) (item.prettyAt (level + 1))
      (prettyItems (level + 1) items)
    rw [hitem] at hlines
    have hopening : "[".toList = ['['] := rfl
    have hclosing : "]".toList = [']'] := rfl
    rw [prettyAt, toList_spread _ _ _ (by simp [prettyItems]), hopening, hclosing] at hfuel ⊢
    simp only [prettyItems, hlines, List.cons_append, List.nil_append, List.append_assoc,
      List.length_append, List.length_cons] at hfuel hread ⊢
    simp [readValue?, skipSpace_cons (c := '[') rfl, skipSpace_append (isSpace_newLine _),
      skipSpace_cons hspace, hc, hread (by omega)]

/-- An object is read back if its values are. -/
theorem readsBack_object {members : List (String × Json)}
    (h : ∀ member ∈ members, Printable member.2) (ih : ∀ member ∈ members, ReadsBack member.2) :
    ReadsBack (obj members) := by
  intro level fuel rest _ hfuel
  obtain ⟨fuel, rfl⟩ := (Printable.object h).exists_fuel hfuel
  rw [obj] at hfuel ⊢
  cases members with
  | nil =>
    simp [prettyAt, prettyMembers, spread, readValue?, skipSpace_cons (c := '\x7b') rfl,
      skipSpace_cons (c := '\x7d') rfl]
  | cons member members =>
    have hread := readMembers?_printed ih (by simp) (level + 1) level fuel rest
    obtain ⟨key, value⟩ := member
    obtain ⟨cs, hlines⟩ := exists_lines_member (level + 1) key (value.prettyAt (level + 1))
      (prettyMembers (level + 1) (members.map fun (key, value) => (some key, value)))
    have hopening : "\x7b".toList = ['\x7b'] := rfl
    have hclosing : "\x7d".toList = ['\x7d'] := rfl
    rw [prettyAt, toList_spread _ _ _ (by simp [prettyMembers]), hopening, hclosing] at hfuel ⊢
    simp only [List.map_cons, prettyMembers, Option.getD_some, hlines, List.cons_append,
      List.nil_append, List.append_assoc, List.length_append, List.length_cons] at hfuel hread ⊢
    simp [readValue?, skipSpace_cons (c := '\x7b') rfl, skipSpace_append (isSpace_newLine _),
      skipSpace_cons (c := '"') rfl, hread (by omega)]

/-- A printable value is read back. -/
theorem Printable.readsBack {value : Json} (h : Printable value) : ReadsBack value := by
  induction h with
  | number h => exact readsBack_number h
  | null =>
    intro level fuel rest _ hfuel
    obtain ⟨fuel, rfl⟩ := Printable.null.exists_fuel hfuel
    simp [prettyAt, compact, readValue?, skipSpace_cons (c := 'n') rfl]
  | bool b =>
    intro level fuel rest _ hfuel
    obtain ⟨fuel, rfl⟩ := (Printable.bool b).exists_fuel hfuel
    cases b with
    | true => simp [prettyAt, compact, readValue?, skipSpace_cons (c := 't') rfl]
    | false => simp [prettyAt, compact, readValue?, skipSpace_cons (c := 'f') rfl]
  | str s =>
    intro level fuel rest _ hfuel
    obtain ⟨fuel, rfl⟩ := (Printable.str s).exists_fuel hfuel
    simp [Json.str, prettyAt, compact, toList_printText, readValue?, skipSpace_cons (c := '"') rfl,
      readText?_printed]
  | array h ih => exact readsBack_array h ih
  | object h ih => exact readsBack_object h ih

/-- Blanks do not go on a number. -/
theorem follows_blanks {blanks : List Char} (h : blanks.all isSpace = true) :
    Follows endsNumber blanks := by
  intro c hc
  have hspace := List.all_eq_true.1 h c (List.mem_of_mem_head? hc)
  simp only [isSpace, Bool.or_eq_true, beq_iff_eq] at hspace
  rcases hspace with ((rfl | rfl) | rfl) | rfl <;> rfl

/-- A value that can be printed without loss is what its print spells, blanks behind it allowed. -/
theorem read?_pretty {value : Json} (h : Printable value) {blanks : String}
    (hblanks : blanks.toList.all isSpace = true) : read? (value.pretty ++ blanks) = some value := by
  rw [pretty, read?, String.toList_append]
  rw [h.readsBack 0 _ _ (follows_blanks hblanks) (by rw [List.length_append]; omega)]
  simpa [skipSpace] using hblanks

end Sqf.Json
