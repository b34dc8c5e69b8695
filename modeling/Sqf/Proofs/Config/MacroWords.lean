import Sqf.Proofs.Config.CallTokens
import Sqf.Proofs.Config.Enclosed
import Sqf.Proofs.Config.Progress
import Sqf.Proofs.Config.RoundTrip

/-!
# Macros as values

The value of a property can be a macro with arguments in parentheses. It is raw text, and kept as
it is written if there is no comma in it (`call_kept_iff`). Raw text ends at a comma whether or not
it stands in parentheses, so of a macro with two arguments only the front is kept, and the comma is
reported as a missing semicolon (`call_cut_at_comma`).
-/

namespace Sqf

namespace Config

open Parse (State state kind advance many)
open Attempt (Runs)

/-! ## Reading a property -/

section Reads

variable {source : List Char} {body : Attempt (List Entry)} {array : Attempt Value} {s : State}

variable (source array) in
/-- A property behind whose sign a name comes has raw text for its value. -/
theorem runs_property {name sign first : Token} {ts : List Token}
    (hrest : s.rest = name :: sign :: first :: ts) (hsign : sign.kind = .assignment)
    (hfirst : first.kind.isNameKind = true) :
    ∃ t : State, t.rest = first :: ts ∧ t.diagnostics = s.diagnostics ∧ ∃ span,
      Runs (property (valueWith source array)) s
        ⟨name.value, (word source t).value, false, false, span⟩
        (terminator span.stop (word source t).next).next := by
  obtain ⟨t, u, hname, hbrackets, hassignment, hu, hreports⟩ := runs_sign hrest hsign
  refine ⟨u, hu, hreports, (word source u).next.spanFrom name.span, ?_⟩
  have hvalue : Runs (valueWith source array) u (word source u).value (word source u).next := by
    refine Runs.kind_bind ?_
    rw [State.kind_cons hu]
    generalize first.kind = kind at hfirst
    split
    · cases hfirst
    · cases hfirst
    · cases hfirst
    · cases hfirst
    · rw [endsWord_of_isNameKind hfirst]
      exact Runs.lift _
  refine hname.bind (hbrackets.bind (hassignment.bind ?_))
  exact hvalue.bind ((Runs.lift (Parse.spanFrom name.span)).bind
    ((Runs.lift (terminator _)).bind (Runs.pure _)))

/-- The semicolon behind a property is read, and whatever else stands there is reported. -/
theorem terminator_of_semicolon {t : Token} {ts : List Token} (stop : Nat)
    (hrest : s.rest = t :: ts) (hkind : t.kind = .semicolon) :
    (terminator stop s).next.rest = ts ∧
      (terminator stop s).next.diagnostics = s.diagnostics := by
  have hnext : (terminator stop s).next = (Parse.advance s).next := by
    show ((if s.kind = .semicolon then _ else _ : Parse Unit) s).next = _
    rw [if_pos ((State.kind_cons hrest).trans hkind)]
    rfl
  rw [hnext, Parse.next_advance hrest]
  exact ⟨rfl, rfl⟩

theorem terminator_of_other (stop : Nat) (hkind : s.kind ≠ .semicolon) :
    (terminator stop s).next.diagnostics.size = s.diagnostics.size + 1 := by
  have hnext : (terminator stop s).next =
      (Parse.report ⟨.missingSeparator s.token.value, .point stop⟩ s).next := by
    show ((if s.kind = .semicolon then _ else _ : Parse Unit) s).next = _
    rw [if_neg hkind]
    rfl
  rw [hnext, Parse.next_report, Array.size_push]

variable (source body array) in
/-- A turn of the loop over entries reads such a property, and what ends it or is missing there. -/
theorem turn_property {name sign first : Token} {ts : List Token}
    (hrest : s.rest = name :: sign :: first :: ts) (hname : name.isName = true)
    (hclass : sameName name.value "class" = false) (hsign : sign.kind = .assignment)
    (hfirst : first.kind.isNameKind = true) :
    ∃ t : State, t.rest = first :: ts ∧ t.diagnostics = s.diagnostics ∧ ∃ span,
      (turn body (valueWith source array) s).value =
        some (some (.property ⟨name.value, (word source t).value, false, false, span⟩)) ∧
      (turn body (valueWith source array) s).next =
        (terminator span.stop (word source t).next).next := by
  obtain ⟨t, ht, hreports, span, hruns⟩ := runs_property source array hrest hsign hfirst
  have htoken : s.token = name := State.token_cons hrest
  rw [← htoken] at hname hclass
  have hentry : Runs (entry body (valueWith source array)) s
      (.property ⟨name.value, (word source t).value, false, false, span⟩)
      (terminator span.stop (word source t).next).next := by
    rw [Runs, entry_of_property body _ hname hclass]
    exact hruns.bind (Runs.pure _)
  obtain ⟨hend, hclose, hstray⟩ := starts_of_isName hname
  obtain ⟨hvalue, hnext⟩ := turn_of_ok hend hclose hstray hentry.1
  exact ⟨t, ht, hreports, span, hvalue, hnext.trans hentry.2⟩

/-- Raw text whose tokens do not end it is the text under them. -/
theorem value_word {first last stop : Token} {others ts : List Token} {text : List Char}
    (hrest : s.rest = first :: others ++ [last] ++ stop :: ts)
    (hends : ∀ t ∈ first :: others ++ [last], endsWord t.kind = false)
    (hstop : endsWord stop.kind = true)
    (hslice : Text.slice? first.span.start last.span.stop source = some text) :
    (word source s).value = .word (.ofList (Text.trim text)) ∧
      (word source s).next.rest = stop :: ts := by
  have htake : s.rest.takeWhile (fun t => !endsWord t.kind) = first :: others ++ [last] := by
    rw [hrest, List.takeWhile_append_of_pos fun t ht => by rw [hends t ht]; rfl]
    simp [hstop]
  have hnext : (word source s).next = s.drop (first :: others ++ [last]).length := by
    rw [← htake]
    rfl
  have hread : s.rest.take (first :: others ++ [last]).length = first :: others ++ [last] := by
    rw [hrest]
    exact List.take_left
  have hlast : (word source s).next.lastEnd = last.span.stop := by
    rw [hnext, State.drop, hread, List.getLast?_concat]
  constructor
  · show Value.word (.ofList (Text.trim ((Text.slice? s.token.span.start
      (word source s).next.lastEnd source).getD []))) = _
    rw [hlast, State.token_cons hrest, hslice, Option.getD_some]
  · rw [hnext]
    show s.rest.drop _ = _
    rw [hrest]
    exact List.drop_left

variable (source) in
/-- A comma ends raw text, if no other token does. -/
theorem kind_word_comma {ts us : List Token} (hrest : s.rest = ts ++ us)
    (hends : ∀ t ∈ ts, endsWord t.kind = true → t.kind = .comma)
    (hcomma : ∃ t ∈ ts, t.kind = .comma) : (word source s).next.kind = .comma := by
  obtain ⟨t, ht, hkind⟩ := hcomma
  have hne : ts.dropWhile (fun t => !endsWord t.kind) ≠ [] := by
    rw [Ne, List.dropWhile_eq_nil_iff, not_forall]
    exact ⟨t, by simp [ht, hkind, endsWord]⟩
  obtain ⟨u, vs, hcons⟩ := List.exists_cons_of_ne_nil hne
  have hbehind : (word source s).next.rest = u :: (vs ++ us) := by
    rw [rest_word, hrest, List.dropWhile_append, hcons]
    rfl
  rw [State.kind_cons hbehind]
  refine hends u ((List.dropWhile_sublist _).subset (by rw [hcons]; exact List.mem_cons_self)) ?_
  have hhead := List.head?_dropWhile_not (fun t : Token => !endsWord t.kind) ts
  rw [hcons] at hhead
  simpa using hhead

end Reads

/-! ## Macros with and without a comma -/

/-- There are no blanks at the ends of a macro. -/
theorem trim_call {core : List Char} (h : IsCall core) : Text.trim core = core := by
  obtain ⟨name, gap, args, -, -, -, hpieces⟩ := h.pieces
  obtain ⟨c, cs, hcons, hc⟩ := h.exists_cons
  have hfirst : Text.isBlank c = false := isBlank_of_isNamePart (isNamePart_of_isNameStart hc)
  have hflat := flatten_pieces core
  rw [hpieces, List.map_append, List.flatten_append] at hflat
  have hleft : core.dropWhile Text.isBlank = core := by simp [hcons, hfirst]
  rw [Text.trim, hleft, ← hflat]
  exact Text.trimRight_append (by decide) _

section Turn

variable {body : Attempt (List Entry)} {array : Attempt Value} {s : State} {fresh : Bool}
  {before after name lead core trail : List Char}

variable (body array) in
/-- A turn of the loop over entries before a property with a macro reads the property. -/
theorem turn_valued (hname : IsName name) (hclass : sameName (.ofList name) "class" = false)
    (hlead : ∀ b ∈ lead, Text.isBlank b = true) (hcall : IsCall core)
    (htrail : ∀ b ∈ trail, Text.isBlank b = true)
    (hrest : s.rest = Piece.tokens (Text.width before)
      (Piece.cut fresh (valued name lead core trail ++ after))) :
    let step := turn body (valueWith (before ++ (valued name lead core trail ++ after)) array) s
    ∃ value span, step.value =
        some (some (.property ⟨.ofList name, value, false, false, span⟩)) ∧
      ((∃ p ∈ pieces core, p.form = .plain .comma) →
        step.next.diagnostics.size = s.diagnostics.size + 1) ∧
      ((∀ p ∈ pieces core, p.form ≠ .plain .comma) → value = .word (.ofList core) ∧
        step.next.rest = Piece.tokens (Text.width (before ++ valued name lead core trail))
          (Piece.cut (Piece.staysFresh fresh (valued name lead core trail)) after) ∧
        step.next.diagnostics = s.diagnostics) := by
  intro step
  obtain ⟨word, sign, stop, hword, hsign, hstop, htokens, -⟩ :=
    tokens_valued hname hlead hcall htrail fresh (Text.width before) after
  obtain ⟨first, others, last, hothers, hfirst, hstart, hend⟩ :=
    hcall.tokens_eq (Text.width before + Text.width (name ++ ' ' :: '=' :: lead))
  have hcomma := IsCall.exists_comma_iff core
    (Text.width before + Text.width (name ++ ' ' :: '=' :: lead))
  have hends : ∀ t ∈ first :: others ++ [last], endsWord t.kind = true → t.kind = .comma := by
    rw [← hothers]
    exact fun t ht => hcall.kind_of_mem_tokens ht
  rw [hothers] at htokens hcomma
  have hsource : Text.slice? first.span.start last.span.stop
      (before ++ (valued name lead core trail ++ after)) = some core := by
    have hsplit : before ++ (valued name lead core trail ++ after) =
        before ++ (name ++ ' ' :: '=' :: lead) ++ core ++ (trail ++ [';'] ++ after) := by
      simp [valued]
    rw [hstart, hend, hsplit, ← Text.width_append, ← Text.width_append]
    exact Text.slice?_middle _ _ _
  obtain ⟨hnamed, hvalue⟩ := Token.isName_of_lexeme hword
  obtain ⟨t, ht, hreports, span, hstep, hnext⟩ := turn_property
    (before ++ (valued name lead core trail ++ after)) body array (hrest.trans htokens) hnamed
    (by rwa [hvalue]) hsign hfirst
  rw [hvalue] at hstep
  refine ⟨_, span, hstep, fun hmem => ?_, fun hnone => ?_⟩
  · have hbehind := kind_word_comma (before ++ (valued name lead core trail ++ after))
      ht hends (hcomma.2 hmem)
    show (turn body _ s).next.diagnostics.size = _
    rw [hnext, terminator_of_other _ (by rw [hbehind]; decide), ← hreports]
    rfl
  · -- A token of the macro that ends raw text would be a comma.
    have hnot : ∀ t ∈ first :: others ++ [last], endsWord t.kind = false := by
      intro t ht
      rw [Bool.eq_false_iff]
      intro hendsWord
      obtain ⟨p, hp, hform⟩ := hcomma.1 ⟨t, ht, hends t ht hendsWord⟩
      exact hnone p hp hform
    obtain ⟨hword, hbehind⟩ := value_word ht hnot (by rw [hstop]; rfl) hsource
    obtain ⟨hmore, hsame⟩ := terminator_of_semicolon span.stop hbehind hstop
    refine ⟨by rw [hword, trim_call hcall], ?_, ?_⟩
    · show (turn body _ s).next.rest = _
      rw [hnext, hmore, Text.width_append]
    · show (turn body _ s).next.diagnostics = _
      rw [hnext, hsame]
      exact hreports

end Turn

section File

variable {source : List Char} {s : State}

/-- Where nothing is left there are no entries. -/
theorem allEntries_of_nil (source : List Char) (h : s.rest = []) :
    (allEntries source s).value = [] ∧ (allEntries source s).next = s := by
  have hend : s.kind = .endOfInput := State.kind_nil h
  obtain ⟨hvalue, hnext⟩ := turn_of_end (body source Parse.maxNesting)
    (valueWith source (array source Parse.maxNesting)) (.inl hend)
  obtain ⟨hnone, hstays⟩ := Parse.many_of_none hvalue
  have hbehind : (topEntries source s).next = s := hstays.trans hnext
  have htop : (topEntries source s).next.kind = .endOfInput := by rwa [hbehind]
  obtain ⟨hall, hleft⟩ := allEntries_of_end htop
  refine ⟨hall.trans ?_, hleft.trans hbehind⟩
  show (many (topTurn source) s).value.filterMap id = []
  rw [show (many (topTurn source) s).value = [] from hnone]
  rfl

/-- Reading goes on behind the first entry. -/
theorem next_allEntries_of_turn {e : Entry} (hvalue : (topTurn source s).value = some (some e))
    (hlt : (topTurn source s).next.rest.length < s.rest.length) :
    (allEntries source s).next = (allEntries source (topTurn source s).next).next := by
  obtain ⟨-, hnext⟩ := Parse.many_of_some hvalue hlt
  have hall (s : State) : (allEntries source s).next =
      (many (strayTurn source) (many (topTurn source) s).next).next := rfl
  rw [hall, hnext, hall]

/-- A file in which the scanner reports nothing, and whose first turn reads an entry. -/
theorem parse_of_turn {source : String} {e : Entry} (hscan : (scan source).diagnostics = [])
    (hs : State.initial (scan source).tokens = s)
    (hvalue : (topTurn source.toList s).value = some (some e)) :
    let others := allEntries source.toList (topTurn source.toList s).next
    (parse source).entries = e :: others.value ∧
      (parse source).diagnostics = Diagnostic.sortByStart others.next.diagnostics.toList := by
  have hturned : Turned _ _ s (topTurn source.toList s).value (topTurn source.toList s).next :=
    turned_turn _ _ s
  rw [hvalue] at hturned
  have hlt := hturned.shortens
  constructor
  · rw [← allEntries_of_turn source.toList hvalue hlt, ← hs]
    rfl
  · rw [← next_allEntries_of_turn hvalue hlt, ← hs, parse, hscan, List.nil_append]

/-- A file with nothing but a property with a macro. -/
theorem parse_valued {source : String} {name lead core trail : List Char} (hname : IsName name)
    (hclass : sameName (.ofList name) "class" = false)
    (hlead : ∀ b ∈ lead, Text.isBlank b = true) (hcall : IsCall core)
    (htrail : ∀ b ∈ trail, Text.isBlank b = true)
    (hsource : source = .ofList (valued name lead core trail)) :
    ((∃ p ∈ pieces core, p.form = .plain .comma) → (parse source).diagnostics ≠ []) ∧
      ((∀ p ∈ pieces core, p.form ≠ .plain .comma) → (parse source).diagnostics = [] ∧
        (parse source).entries.map Entry.unplaced =
          [.property ⟨.ofList name, .word (.ofList core), false, false, {}⟩]) := by
  have hcut (fresh : Bool) : Piece.cut fresh [] = [] := by rw [Piece.cut]
  have htext : source.toList = [] ++ (valued name lead core trail ++ []) := by
    rw [hsource, String.toList_ofList, List.append_nil, List.nil_append]
  generalize hs : State.initial (scan source).tokens = s
  have hrest : s.rest = Piece.tokens (Text.width [])
      (Piece.cut true (valued name lead core trail ++ [])) := by
    rw [← hs, rest_initial, htext]
    rfl
  have hempty : s.diagnostics = #[] := by
    rw [← hs]
    exact (Parse.initial_found _).2.2.1
  obtain ⟨value, span, hvalue, hcomma, hnone⟩ :=
    turn_valued (body source.toList Parse.maxNesting) (array source.toList Parse.maxNesting) hname
      hclass hlead hcall htrail hrest
  rw [← htext] at hvalue hcomma hnone
  change (topTurn source.toList s).value = _ at hvalue
  change _ → (topTurn source.toList s).next.diagnostics.size = _ at hcomma
  change _ → _ ∧ (topTurn source.toList s).next.rest = _ ∧
    (topTurn source.toList s).next.diagnostics = _ at hnone
  have hscan : (scan source).diagnostics = [] := by
    obtain ⟨word, sign, stop, -, -, -, -, hnothing⟩ :=
      tokens_valued hname hlead hcall htrail true 0 []
    rw [hcut] at hnothing
    rw [scan, htext]
    exact hnothing
  obtain ⟨hentries, hreported⟩ := parse_of_turn hscan hs hvalue
  generalize (topTurn source.toList s).next = t at hcomma hnone hentries hreported
  constructor
  · -- What the turn reports is still there at the end.
    intro hmem hclean
    have hle := (reaches_allEntries source.toList t).size_le
    have hlength := (Diagnostic.sortByStart_perm
      (allEntries source.toList t).next.diagnostics.toList).length_eq
    rw [← hreported, hclean, List.length_nil, Array.length_toList] at hlength
    have hsize := hcomma hmem
    omega
  · intro hkept
    obtain ⟨rfl, hbehind, hsame⟩ := hnone hkept
    rw [hcut] at hbehind
    obtain ⟨hothers, hleft⟩ := allEntries_of_nil source.toList hbehind
    constructor
    · rw [hreported, hleft, hsame, hempty]
      simp [Diagnostic.sortByStart]
    · rw [hentries, hothers]
      rfl

end File

/-- A macro is kept as it is written, blanks at its ends aside, if and only if there is no comma
among its tokens: wherever the loop over entries stands before a property with this value, it reads
the property and reports nothing; and a file with nothing else in it has this one entry and no
diagnostic. -/
theorem call_kept_iff {name lead core trail : List Char} (hname : IsName name)
    (hclass : sameName (.ofList name) "class" = false)
    (hlead : ∀ b ∈ lead, Text.isBlank b = true) (hcall : IsCall core)
    (htrail : ∀ b ∈ trail, Text.isBlank b = true) :
    (∀ (body : Attempt (List Entry)) (array : Attempt Value) (before after : List Char)
        (fresh : Bool) (s : State),
      s.rest = Piece.tokens (Text.width before)
        (Piece.cut fresh (valued name lead core trail ++ after)) →
      let step := turn body (valueWith (before ++ (valued name lead core trail ++ after)) array) s
      (((∃ span, step.value = some (some (.property
          ⟨.ofList name, .word (.ofList core), false, false, span⟩))) ∧
        step.next.rest = Piece.tokens (Text.width (before ++ valued name lead core trail))
          (Piece.cut (Piece.staysFresh fresh (valued name lead core trail)) after) ∧
        step.next.diagnostics = s.diagnostics) ↔ ∀ p ∈ pieces core, p.form ≠ .plain .comma)) ∧
    (((parse (.ofList (valued name lead core trail))).diagnostics = [] ∧
        (parse (.ofList (valued name lead core trail))).entries.map Entry.unplaced =
          [.property ⟨.ofList name, .word (.ofList core), false, false, {}⟩]) ↔
      ∀ p ∈ pieces core, p.form ≠ .plain .comma) := by
  constructor
  · intro body array before after fresh s hrest step
    obtain ⟨value, span, hvalue, hcomma, hnone⟩ :=
      turn_valued body array hname hclass hlead hcall htrail hrest
    change _ → step.next.diagnostics.size = _ at hcomma
    constructor
    · rintro ⟨-, -, hsame⟩ p hp hform
      have hsize := hcomma ⟨p, hp, hform⟩
      rw [hsame] at hsize
      omega
    · intro hkept
      obtain ⟨rfl, hbehind, hsame⟩ := hnone hkept
      exact ⟨⟨span, hvalue⟩, hbehind, hsame⟩
  · obtain ⟨hcomma, hnone⟩ := parse_valued hname hclass hlead hcall htrail rfl
    exact ⟨fun hkept p hp hform => hcomma ⟨p, hp, hform⟩ hkept.1, hnone⟩

/-- A macro with a string, and with parentheses in its arguments. -/
theorem call_kept_quote :
    IsCall "QUOTE(\"a;b\" + (c d))".toList ∧
      (parse "x =  QUOTE(\"a;b\" + (c d)) ;").diagnostics = [] ∧
      (parse "x =  QUOTE(\"a;b\" + (c d)) ;").entries.map Entry.unplaced =
        [.property ⟨"x", .word "QUOTE(\"a;b\" + (c d))", false, false, {}⟩] := by
  have hcall : IsCall "QUOTE(\"a;b\" + (c d))".toList :=
    ⟨"QUOTE".toList, [], [⟨.string "a;b".toList, "\"a;b\"".toList⟩, ⟨.blank, [' ']⟩,
      ⟨.plain .plus, ['+']⟩, ⟨.blank, [' ']⟩, ⟨.plain .openParen, ['(']⟩,
      ⟨.plain .identifier, ['c']⟩, ⟨.blank, [' ']⟩, ⟨.plain .identifier, ['d']⟩,
      ⟨.plain .closeParen, [')']⟩], by decide +kernel, by simp, by decide +kernel,
      by decide +kernel⟩
  have hkept : ∀ p ∈ pieces "QUOTE(\"a;b\" + (c d))".toList, p.form ≠ .plain .comma := by
    decide +kernel
  have hfile := (@call_kept_iff ['x'] [' ', ' '] _ [' '] (by decide) (by decide +kernel)
    (by simp [Text.isBlank_space]) hcall (by simp [Text.isBlank_space])).2.2 hkept
  have htext : String.ofList (valued ['x'] [' ', ' '] "QUOTE(\"a;b\" + (c d))".toList [' ']) =
      "x =  QUOTE(\"a;b\" + (c d)) ;" := by
    decide +kernel
  rw [htext, String.ofList_toList] at hfile
  exact ⟨hcall, hfile⟩

/-- Of a macro with two arguments only the front is kept. -/
theorem call_cut_at_comma :
    IsCall "FOO(a, b)".toList ∧
      (propertiesOf (parse "x = FOO(a, b);").entries).map (fun p => (p.name, p.value.text?)) =
        [("x", some "FOO(a")] ∧
      ⟨.missingSeparator ",", .point 9⟩ ∈ (parse "x = FOO(a, b);").diagnostics := by
  refine ⟨⟨"FOO".toList, [], [⟨.plain .identifier, ['a']⟩, ⟨.plain .comma, [',']⟩,
    ⟨.blank, [' ']⟩, ⟨.plain .identifier, ['b']⟩], by decide +kernel, by simp, by decide +kernel,
    by decide +kernel⟩, ?_, ?_⟩
  · decide +kernel
  · have hreported : ⟨.missingSeparator ",", .point 9⟩ ∈ (allEntries "x = FOO(a, b);".toList
        (.initial (scan "x = FOO(a, b);").tokens)).next.diagnostics.toList := by
      decide +kernel
    exact (Diagnostic.sortByStart_perm _).mem_iff.2 (List.mem_append_right _ hreported)

end Config

end Sqf
