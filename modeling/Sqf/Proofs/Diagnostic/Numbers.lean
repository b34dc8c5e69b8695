import Sqf.Proofs.Check.Places
import Sqf.Proofs.Parse.OtherCommands
import Sqf.Proofs.Token.Numerals

/-!
# Numbers at fault

A number is reported as malformed by a parser, which does so when it comes upon the token and
cannot read its text. Neither the scanner nor the check reports numbers. This is an invariant of
parsers (`Invariant.numbers`), and of the numbers of a text only those that are too large cannot
be read, so only these are ever reported (`numbers_read`).
-/

namespace Sqf

/-- If a number is reported, it is among the tokens and cannot be read. -/
def NumbersUnread (tokens : List Token) (d : Diagnostic) : Prop :=
  d.cause.isMalformedNumber = true → ∃ t ∈ tokens, t.kind = .number ∧
    Numeral.read? t.value = none ∧ d = ⟨.malformedNumber t.value, t.span⟩

/-- A report of another sort says nothing of numbers. -/
theorem NumbersUnread.of_other {tokens : List Token} {d : Diagnostic}
    (h : d.cause.isMalformedNumber = false) : NumbersUnread tokens d := by
  intro hnumber
  rw [h] at hnumber
  cases hnumber

/-- A malformed number is a fault in the writing. -/
theorem isMalformedNumber_eq_false {cause : Cause} (h : cause.isSyntax = false) :
    cause.isMalformedNumber = false := by
  cases cause <;> first | rfl | cases h

namespace Parse

/-- The tokens to come are some of these, and so are the numbers reported. -/
def Invariant.numbers (tokens : List Token) : Invariant where
  state s := s.rest ⊆ tokens ∧ ∀ d ∈ s.diagnostics, NumbersUnread tokens d
  span _ := True
  leaf _ := True
  reported := NumbersUnread tokens
  token _ := trivial
  leafOf _ _ _ := trivial
  drop n hs := ⟨fun _ ht => hs.1 (List.mem_of_mem_drop ht), hs.2⟩
  finish _ hs := hs
  spanReported _ := trivial
  plain hcause _ := .of_other hcause
  number := by
    intro s hs hkind hread _
    obtain ⟨ts, hts⟩ := State.exists_cons (s := s) (by rw [hkind]; decide)
    exact ⟨s.token, hs.1 (by rw [hts]; exact List.mem_cons_self), hkind, hread, rfl⟩
  report := by
    intro s d hs hd
    refine ⟨hs.1, fun e he => ?_⟩
    rcases Array.mem_push.1 he with he | rfl
    · exact hs.2 e he
    · exact hd
  freshId hs := hs
  stall hs := hs
  pointStart _ := trivial
  pointStop _ := trivial
  join _ _ := trivial
  spanFrom _ _ := trivial
  passed _ _ _ _ := trivial

/-- At the start nothing has been reported. -/
theorem numbers_initial (source : String) :
    (Invariant.numbers (scan source).tokens).state (.initial (scan source).tokens) := by
  refine ⟨rest_initial_subset _, ?_⟩
  rw [initial_scan]
  intro d hd
  cases Array.not_mem_empty d hd

end Parse

section Reported

variable {source : String} {d : Diagnostic}

/-- The scanner reports no numbers. -/
theorem numbersUnread_of_scan (h : d ∈ (scan source).diagnostics) :
    NumbersUnread (scan source).tokens d := by
  obtain ⟨front, p, back, -, hd⟩ := Piece.exists_of_mem_diagnostics h
  refine .of_other ?_
  unfold Piece.diagnostic? at hd
  split at hd <;> cases hd <;> rfl

/-- The parser reports those that it cannot read. -/
theorem numbersUnread_of_parseSource {table : Table}
    (h : d ∈ (parseSource table source).diagnostics) : NumbersUnread (scan source).tokens d := by
  obtain ⟨hnext, -⟩ := Parse.Level.statements_sound
    (Parse.level_sound (.numbers (scan source).tokens) table Parse.maxNesting) .file _
    (Parse.numbers_initial source)
  rcases List.mem_append.1 ((Diagnostic.sortByStart_perm _).mem_iff.1 h) with hd | hd
  · exact numbersUnread_of_scan hd
  · exact hnext.2 d (Array.mem_toList_iff.1 hd)

/-- So does the parser of config files. -/
theorem numbersUnread_of_config (h : d ∈ (Config.parse source).diagnostics) :
    NumbersUnread (scan source).tokens d := by
  have hnext := (Config.allEntries_upholds source.toList (Parse.numbers_initial source)).1
  rcases List.mem_append.1 ((Diagnostic.sortByStart_perm _).mem_iff.1 h) with hd | hd
  · exact numbersUnread_of_scan hd
  · exact hnext.2 d (Array.mem_toList_iff.1 hd)

end Reported

/-- A number in a source text is read unless it is a hexadecimal numeral whose value is 2^64 at
least. Only such numbers are reported as malformed, be the text read and checked as a script or read
as a config file. -/
theorem numbers_read (table : Table) (settings : Settings) (source : String) :
    let tokens := (scan source).tokens
    let parsed := parseSource table source
    (∀ t ∈ tokens, t.kind = .number →
      ((Numeral.read? t.value).isSome = true ↔ ¬ Oversized t.value.toList)) ∧
      ∀ d ∈ parsed.diagnostics ++ (check table settings parsed.program).diagnostics ++
          (Config.parse source).diagnostics,
        d.cause.isMalformedNumber = true → ∃ t ∈ tokens, t.kind = .number ∧
          Oversized t.value.toList ∧ d = ⟨.malformedNumber t.value, t.span⟩ := by
  intro tokens parsed
  constructor
  · intro t ht hkind
    rw [← read?_eq_none_iff_of_mem ht hkind, Option.isSome_iff_ne_none]
  · intro d hd hnumber
    have hunread : NumbersUnread tokens d := by
      rw [List.mem_append, List.mem_append] at hd
      rcases hd with (hd | hd) | hd
      · exact numbersUnread_of_parseSource hd
      · exact .of_other (isMalformedNumber_eq_false (Check.isSyntax_of_mem_check hd))
      · exact numbersUnread_of_config hd
    obtain ⟨t, ht, hkind, hread, heq⟩ := hunread hnumber
    exact ⟨t, ht, hkind, (read?_eq_none_iff_of_mem ht hkind).1 hread, heq⟩

/-- The least number that is too large is reported in a script and in a config file. Leading zeros
do not make a number too large. -/
theorem numbers_read_large :
    let source := "x = 0x10000000000000000; y = $00000000000000000f;"
    let large : Token := ⟨.number, "0x10000000000000000", ⟨4, 23⟩⟩
    let padded : Token := ⟨.number, "$00000000000000000f", ⟨29, 48⟩⟩
    large ∈ (scan source).tokens ∧ Oversized large.value.toList ∧
      padded ∈ (scan source).tokens ∧ ¬ Oversized padded.value.toList ∧
      (parseSource (.ofSignatures []) source).diagnostics =
        [⟨.malformedNumber large.value, large.span⟩] ∧
      (Config.parse source).diagnostics = [⟨.malformedNumber large.value, large.span⟩] := by
  intro source large padded
  obtain ⟨hread, hreported⟩ := numbers_read (.ofSignatures []) {} source
  have hlarge : large ∈ (scan source).tokens := by decide +kernel
  have hpadded : padded ∈ (scan source).tokens := by decide +kernel
  have hscript : (parseSource (.ofSignatures []) source).diagnostics =
      [⟨.malformedNumber large.value, large.span⟩] := by
    decide +kernel
  have hconfig : (Config.parse source).diagnostics =
      [⟨.malformedNumber large.value, large.span⟩] := by
    decide +kernel
  have hpaddedRead : (Numeral.read? padded.value).isSome = true := by decide +kernel
  obtain ⟨t, -, -, hoversized, heq⟩ := hreported ⟨.malformedNumber large.value, large.span⟩
    (by rw [hscript]; exact List.mem_cons_self) rfl
  have hvalue : large.value = t.value := Cause.malformedNumber.inj (congrArg Diagnostic.cause heq)
  exact ⟨hlarge, hvalue ▸ hoversized, hpadded, (hread padded hpadded rfl).1 hpaddedRead, hscript,
    hconfig⟩

end Sqf
