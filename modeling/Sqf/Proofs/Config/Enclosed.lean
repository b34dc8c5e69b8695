import Sqf.Proofs.Config.ClassEnd
import Sqf.Proofs.Config.Moved
import Sqf.Proofs.Token.Alone

/-!
# What is wrong in a class stays in the class

Any tokens can stand between the braces of a class, as long as the braces among them are
balanced. The class is then the first entry of the file. If none of its raw texts has an
opening brace it ends at its own brace, and the file behind it is read as if it stood alone
(`parse_enclosed`). Raw text ends at a closing brace but not at an opening one, so with an
opening brace in it the class ends too early (`brace_escapes`).
-/

namespace Sqf.Config

open Parse (State state kind advance skip report failUnexpected expect commaList many)
open Attempt (Runs)

/-- A class up to the brace that closes it, with these texts inside. -/
def opened (texts : List (List Char)) : List Char :=
  "class A \x7b ".toList ++ spaced texts

/-- A class with these texts inside, and a file behind it. -/
def enclosed (texts : List (List Char)) (gap : Char) (file : String) : String :=
  .ofList (opened texts ++ '\x7d' :: ';' :: gap :: file.toList)

/-! ## The tokens -/

section Tokens

variable {texts : List (List Char)} {ls : List Lexeme} {gap : Char} {file : String}

/-- The head of the class and the texts in it are scanned one by one. -/
theorem scans_opened (h : texts.map alone? = ls.map some) :
    Scans anything (opened texts)
      (⟨.identifier, "class"⟩ :: ⟨.identifier, "A"⟩ :: ⟨.openCurly, "\x7b"⟩ :: ls) := by
  have hhead : ["class".toList, ['A'], ['\x7b']].map alone? =
      [⟨.identifier, "class"⟩, ⟨.identifier, "A"⟩, ⟨.openCurly, "\x7b"⟩].map some := by
    decide +kernel
  exact (Scans.spaced hhead).before (Scans.spaced h)

/-- The token of a symbol at the front of a text. -/
theorem tokens_symbol {c : Char} {kind : Kind} (h : (c, kind) ∈ closedSymbols) (fresh : Bool)
    (start : Nat) (rest : List Char) :
    Piece.tokens start (Piece.cut fresh (c :: rest)) =
      ⟨kind, .ofList [c], ⟨start, start + Text.width [c]⟩⟩ ::
        Piece.tokens (start + Text.width [c]) (Piece.cut (Piece.staysFresh fresh [c]) rest) := by
  have hfirst : Piece.first fresh c rest = (.plain kind, 0) := by
    simp only [closedSymbols, List.mem_cons, Prod.mk.injEq, List.not_mem_nil, or_false] at h
    rcases h with ⟨rfl, rfl⟩ | ⟨rfl, rfl⟩ | ⟨rfl, rfl⟩ | ⟨rfl, rfl⟩ | ⟨rfl, rfl⟩ | ⟨rfl, rfl⟩ |
      ⟨rfl, rfl⟩ | ⟨rfl, rfl⟩ <;> rfl
  rw [Piece.cut, hfirst]
  rfl

/-- A name at the front of a text is its first token. -/
theorem start_of_name {c : Char} {rest : List Char} {fresh : Bool} {start : Nat} {t : Token}
    {ts : List Token} (hc : Piece.isNameStart c = true)
    (h : Piece.tokens start (Piece.cut fresh (c :: rest)) = t :: ts) : t.span.start = start := by
  rw [Piece.cut, first_nameStart hc] at h
  cases h
  rfl

/-- Behind the class the scanner stands as at the start of a file. -/
theorem cut_behind (fresh : Bool)
    (hline : gap = '\n' ∨ Piece.cut false file.toList = pieces file.toList) :
    Piece.cut (Piece.staysFresh (Piece.staysFresh (Piece.staysFresh fresh ['\x7d']) [';']) [gap])
      file.toList = pieces file.toList := by
  rcases hline with rfl | hline
  · simp [Piece.staysFresh, pieces]
  · cases hgap : gap == '\n' with
    | true => simp [Piece.staysFresh, pieces, hgap]
    | false => simpa [Piece.staysFresh, hgap] using hline

/-- The tokens of the class, with its closing brace where it stands, and behind them those of
the file. -/
theorem tokens_enclosed (h : texts.map alone? = ls.map some) (hgap : Text.isBlank gap = true)
    (hline : gap = '\n' ∨ Piece.cut false file.toList = pieces file.toList) :
    ∃ (word name brace stop : Token) (inside : List Token),
      Piece.tokens 0 (pieces (enclosed texts gap file).toList) =
        word :: name :: brace :: (inside ++
          ⟨.closeCurly, "\x7d", ⟨Text.width (opened texts), Text.width (opened texts) + 1⟩⟩ ::
            stop :: (Piece.tokens 0 (pieces file.toList)).map
              (Token.moved (Text.width (opened texts ++ ['\x7d', ';', gap])))) ∧
      word.lexeme = ⟨.identifier, "class"⟩ ∧ name.lexeme = ⟨.identifier, "A"⟩ ∧
      brace.kind = .openCurly ∧ inside.map Token.lexeme = ls ∧ stop.kind = .semicolon := by
  obtain ⟨ts, hts, htokens, _⟩ := scans_opened h true 0 ('\x7d' :: ';' :: gap :: file.toList)
    (follows_anything _)
  obtain ⟨word, ts, rfl, hword, hts⟩ := List.map_eq_cons_iff.1 hts
  obtain ⟨name, ts, rfl, hname, hts⟩ := List.map_eq_cons_iff.1 hts
  obtain ⟨brace, inside, rfl, hbrace, hinside⟩ := List.map_eq_cons_iff.1 hts
  have hopen : brace.kind = .openCurly := congrArg Lexeme.kind hbrace
  generalize Piece.staysFresh true (opened texts) = fresh at htokens
  -- The two symbols behind the class are read off, then the blank.
  obtain ⟨none, hnone, hblank, _⟩ := Scans.blank hgap
    (Piece.staysFresh (Piece.staysFresh fresh ['\x7d']) [';'])
    (0 + Text.width (opened texts) + Text.width ['\x7d'] + Text.width [';']) file.toList
    (follows_anything _)
  obtain rfl : none = [] := List.map_eq_nil_iff.1 hnone
  rw [List.singleton_append, List.nil_append, cut_behind fresh hline] at hblank
  have hwidth : 0 + Text.width (opened texts) + Text.width ['\x7d'] + Text.width [';'] +
      Text.width [gap] = 0 + Text.width (opened texts ++ ['\x7d', ';', gap]) := by
    simp [Text.width_append, Nat.add_assoc]
  rw [tokens_symbol (show ('\x7d', .closeCurly) ∈ closedSymbols by decide),
    tokens_symbol (show (';', .semicolon) ∈ closedSymbols by decide), hblank, hwidth,
    Piece.tokens_moved] at htokens
  rw [Nat.zero_add] at htokens
  refine ⟨word, name, brace, ⟨.semicolon, ";", ⟨Text.width (opened texts) + 1,
    Text.width (opened texts) + 1 + 1⟩⟩, inside, ?_, hword, hname, hopen, hinside, rfl⟩
  rw [pieces, enclosed, String.toList_ofList, htokens]
  rfl

end Tokens

/-! ## The class -/

section Runs

variable {s t u : State} {word name brace : Token} {ts : List Token}

theorem runs_name (hrest : s.rest = name :: ts) (hname : name.isName = true)
    (expectation : String) :
    ∃ u : State, u.rest = ts ∧ Runs (Config.name expectation) s name u := by
  obtain ⟨u, hu, -, hadvance⟩ := Runs.advance hrest
  rw [← State.token_cons hrest] at hname
  refine ⟨u, hu, ?_⟩
  show Runs (if s.token.isName then liftM Parse.advance else Parse.failUnexpected expectation) s
    name u
  rwa [if_pos hname]

/-- A class without a base: the entries behind its opening brace, and what closes it. -/
theorem runs_classWith (source : List Char) (n : Nat) (hrest : s.rest = word :: name :: brace :: ts)
    (hname : name.isName = true) (hbrace : brace.kind = .openCurly) :
    ∃ u : State, u.rest = ts ∧
      let entries := entriesWith (body source n) (valueWith source (array source n)) u
      let close := closing entries.next
      Runs (classWith (body source (n + 1))) s
        ⟨name.value, none, entries.value, false, word.span.join close.value⟩ close.next := by
  obtain ⟨t, ht, -, hword⟩ := Runs.advance hrest
  obtain ⟨u, hu, hread⟩ := runs_name ht hname "a class name"
  have hkind : u.kind = .openCurly := (State.kind_cons hu).trans hbrace
  obtain ⟨v, hv, -, hopen⟩ := Runs.advance hu
  refine ⟨v, hv, ?_⟩
  have hparent : Runs parent u none u := by
    show Runs (if u.kind = .colon then _ else _) u none u
    rw [if_neg (by rw [hkind]; decide)]
    exact Runs.pure none
  have hbody : Runs (body source (n + 1)) u _ _ := hopen.bind (Runs.lift _)
  refine hword.bind (hread.bind (hparent.bind (Runs.kind_bind ?_)))
  rw [hkind]
  exact hbody.bind ((Runs.lift closing).bind (Runs.pure _))

/-- An entry, as it is run. -/
theorem entry_run (body : Attempt (List Entry)) (value : Attempt Value) (s : State) :
    (entry body value).run s = (if !s.token.isName then
        Parse.failUnexpected "`class` or a property"
      else if sameName s.token.value "class" then do
        let c ← classWith body
        return Entry.nested c
      else do
        let p ← property value
        return Entry.property p : Attempt Entry).run s := rfl

/-- With the word in front it is a class. -/
theorem entry_of_class (body : Attempt (List Entry)) (value : Attempt Value)
    (hname : s.token.isName = true) (hclass : sameName s.token.value "class" = true) :
    (entry body value).run s =
      (do return Entry.nested (← classWith body) : Attempt Entry).run s := by
  rw [entry_run, hname, hclass]
  rfl

/-- Without it, it is a property. -/
theorem entry_of_property (body : Attempt (List Entry)) (value : Attempt Value)
    (hname : s.token.isName = true) (hclass : sameName s.token.value "class" = false) :
    (entry body value).run s =
      (do return Entry.property (← property value) : Attempt Entry).run s := by
  rw [entry_run, hname, hclass]
  rfl

/-- An entry that is a class is read as the class is. -/
theorem runs_entry {body : Attempt (List Entry)} {c : Class} (value : Attempt Value)
    (hname : s.token.isName = true) (hclass : sameName s.token.value "class" = true)
    (h : Runs (classWith body) s c t) : Runs (entry body value) s (.nested c) t := by
  rw [Runs, entry_of_class body value hname hclass]
  exact h.bind (Runs.pure _)

/-- The head of a property without brackets. -/
theorem runs_sign {sign : Token} (hrest : s.rest = name :: sign :: ts)
    (hsign : sign.kind = .assignment) :
    ∃ t u : State, Runs (liftM Parse.advance) s name t ∧ Runs brackets t false t ∧
      Runs (assignment false) t false u ∧ u.rest = ts ∧ u.diagnostics = s.diagnostics := by
  obtain ⟨t, ht, hreports, hname⟩ := Runs.advance hrest
  obtain ⟨u, hu, hreports', hread⟩ := Runs.advance ht
  have hkind : t.kind = .assignment := (State.kind_cons ht).trans hsign
  refine ⟨t, u, hname, Runs.kind_bind ?_, Runs.kind_bind ?_, hu, hreports'.trans hreports⟩
  · rw [if_neg (by rw [hkind]; decide)]
    exact Runs.pure false
  · rw [hkind]
    exact hread.bind (Runs.pure false)

/-- A name starts an entry. -/
theorem starts_of_isName (h : s.token.isName = true) :
    s.kind ≠ .endOfInput ∧ s.kind ≠ .closeCurly ∧ s.kind ≠ .semicolon := by
  unfold Token.isName at h
  refine ⟨?_, ?_, ?_⟩ <;> (intro hkind; rw [show s.token.kind = _ from hkind] at h; cases h)

/-- A brace and a semicolon that are there are read. -/
theorem closing_closed {closer stop : Token} (hrest : s.rest = closer :: stop :: ts)
    (hcloser : closer.kind = .closeCurly) (hstop : stop.kind = .semicolon) :
    (closing s).value = closer.span ∧ (closing s).next.rest = ts := by
  have hkind : s.kind = .closeCurly := (State.kind_cons hrest).trans hcloser
  have hbehind : (Parse.advance s).next.rest = stop :: ts := by rw [Parse.next_advance hrest]
  have hsemicolon : (Parse.advance s).next.kind = .semicolon :=
    (State.kind_cons hbehind).trans hstop
  -- With the brace in sight the test for it is decided, and so is that for the semicolon.
  have hclosing : closing s = (do
      let t ← advance
      terminator t.span.stop
      return t.span : Parse Span) s := by
    show (if s.kind = .closeCurly then _ else _ : Parse Span) s = _
    rw [if_pos hkind]
  have hterminator (stop : Nat) : (terminator stop (Parse.advance s).next).next =
      (Parse.advance (Parse.advance s).next).next := by
    show ((if (Parse.advance s).next.kind = .semicolon then _ else _ : Parse Unit)
      (Parse.advance s).next).next = _
    rw [if_pos hsemicolon]
    rfl
  rw [hclosing]
  constructor
  · show (Parse.advance s).value.span = closer.span
    rw [Parse.value_advance, State.token_cons hrest]
  · show (terminator _ (Parse.advance s).next).next.rest = ts
    rw [hterminator, Parse.next_advance hbehind]

end Runs

/-! ## Files -/

section Files

variable (source : List Char) {s : State}

/-- A turn of the loop over the entries of a file. -/
def topTurn : Parse (Option (Option Entry)) :=
  turn (body source Parse.maxNesting) (valueWith source (array source Parse.maxNesting))

/-- The entries inside of a class of a file. -/
def inside (s : State) : Parse.Step s (List Entry) :=
  entriesWith (body source 127) (valueWith source (array source 127)) s

/-- A class at the front is read in one turn. -/
theorem topTurn_class {word name brace : Token} {ts : List Token}
    (hrest : s.rest = word :: name :: brace :: ts)
    (hword : word.lexeme = ⟨.identifier, "class"⟩) (hname : name.isName = true)
    (hbrace : brace.kind = .openCurly) :
    ∃ u : State, u.rest = ts ∧
      (topTurn source s).value = some (some (.nested ⟨name.value, none, (inside source u).value,
        false, word.span.join (closing (inside source u).next).value⟩)) ∧
      (topTurn source s).next = (closing (inside source u).next).next ∧
      (topTurn source s).next.rest.length < s.rest.length := by
  have htoken : s.token = word := State.token_cons hrest
  have hkind : s.kind = .identifier :=
    (State.kind_cons hrest).trans (congrArg Lexeme.kind hword)
  obtain ⟨u, hu, hclass⟩ := runs_classWith source 127 hrest hname hbrace
  have hname' : s.token.isName = true := by
    rw [Token.isName, show s.token.kind = .identifier from hkind]
    rfl
  have hword' : sameName s.token.value "class" = true := by
    rw [htoken, show word.value = "class" from congrArg Lexeme.value hword]
    simp [sameName]
  have hentry := runs_entry (valueWith source (array source Parse.maxNesting)) hname' hword' hclass
  have hend : s.kind ≠ .endOfInput := by rw [hkind]; decide
  obtain ⟨hvalue, hnext⟩ := turn_of_ok hend (by rw [hkind]; decide) (by rw [hkind]; decide)
    hentry.1
  refine ⟨u, hu, hvalue, hnext.trans hentry.2, ?_⟩
  rw [show (topTurn source s).next = _ from hnext]
  exact entry_shortens _ _ hend _ hentry.1

/-- An entry that a turn gives is the first of the file. -/
theorem allEntries_of_turn {e : Entry} (hvalue : (topTurn source s).value = some (some e))
    (hlt : (topTurn source s).next.rest.length < s.rest.length) :
    (allEntries source s).value = e :: (allEntries source (topTurn source s).next).value := by
  obtain ⟨hmany, hnext⟩ := Parse.many_of_some hvalue hlt
  have hall (s : State) : (allEntries source s).value =
      (many (topTurn source) s).value.filterMap id ++
        (many (strayTurn source) (many (topTurn source) s).next).value.flatten := rfl
  rw [hall, hmany, hnext, hall]
  rfl

theorem rest_initial (source : String) :
    (State.initial (scan source).tokens).rest = Piece.tokens 0 (pieces source.toList) := by
  rw [tokens_scan, Parse.initial_append_end rfl]

/-- A class is the first entry of its file. If its braces are balanced and no raw text in it has an
opening brace, then it ends at its own brace, and behind it are the entries of the file that
stands there. That file may go on in the line of the class if it is read there as in a line of
its own, which it is unless it begins with a directive. -/
theorem parse_enclosed (texts : List (List Char)) (ls : List Lexeme) (gap : Char) (file : String)
    (htexts : texts.map alone? = ls.map some) (hbalanced : Balanced (ls.map Lexeme.kind))
    (hgap : Text.isBlank gap = true)
    (hline : gap = '\n' ∨ Piece.cut false file.toList = pieces file.toList) :
    ∃ c others, (parse (enclosed texts gap file)).entries = .nested c :: others ∧
      c.name = "A" ∧ c.parent = none ∧ c.isForward = false ∧
      (c.holdsBrace = false →
        c.span = ⟨0, Text.width (opened texts) + 1⟩ ∧
        others.map Entry.unplaced = (parse file).entries.map Entry.unplaced) := by
  obtain ⟨word, name, brace, stop, between, htokens, hword, hname, hbrace, hbetween, hstop⟩ :=
    tokens_enclosed htexts hgap hline
  generalize hcloser : (⟨.closeCurly, "\x7d", ⟨Text.width (opened texts),
    Text.width (opened texts) + 1⟩⟩ : Token) = closer at htokens
  -- The text falls apart into the class with the gap behind it and the file.
  generalize hfront : opened texts ++ ['\x7d', ';', gap] = front at htokens
  have hsource : (enclosed texts gap file).toList = front ++ file.toList := by
    rw [enclosed, String.toList_ofList, ← hfront]
    simp
  rw [hsource] at htokens
  generalize hs : State.initial (scan (enclosed texts gap file)).tokens = s
  have hrest : s.rest = Piece.tokens 0 (pieces (front ++ file.toList)) := by
    rw [← hs, rest_initial, hsource]
  have hnamed : name.isName = true := by
    rw [Token.isName, show name.kind = .identifier from congrArg Lexeme.kind hname]
    rfl
  obtain ⟨u, hu, hvalue, hnext, hlt⟩ := topTurn_class (front ++ file.toList)
    (hrest.trans htokens) hword hnamed hbrace
  have hparsed : (parse (enclosed texts gap file)).entries =
      (allEntries (front ++ file.toList) s).value := by
    rw [← hsource, ← hs]
    rfl
  refine ⟨_, _, hparsed.trans (allEntries_of_turn _ hvalue hlt), congrArg Lexeme.value hname, rfl,
    rfl, fun hfree => ?_⟩
  -- From here on no raw text has an opening brace, so the entries end before the brace of the
  -- class.
  have hwithin : Within (front ++ file.toList) u := by
    rw [Within, htokens, hu]
    exact ⟨[word, name, brace], rfl⟩
  have hkinds : Balanced (between.map Token.kind) := by
    rw [← hbetween, List.map_map] at hbalanced
    exact hbalanced
  have hclosed : closer.kind = .closeCurly := by rw [← hcloser]
  have hend : (inside (front ++ file.toList) u).next.rest = closer :: stop :: _ :=
    entries_end hwithin hu hkinds hclosed hfree
  obtain ⟨hclose, hbehind⟩ := closing_closed hend hclosed hstop
  constructor
  · -- The class starts with the first token, and its brace stands behind that.
    have hordered : (Piece.tokens 0 (pieces (front ++ file.toList))).Pairwise fun t u =>
        t.span.start < u.span.start ∧ t.span.stop ≤ u.span.start :=
      Piece.tokens_pairwise fun p hp => Piece.text_ne_nil hp
    rw [htokens, List.pairwise_cons] at hordered
    have hbefore := hordered.1 closer (by simp)
    have hstart : word.span.start = 0 := by
      obtain ⟨more, hmore⟩ : ∃ more, front ++ file.toList = 'c' :: more := by
        rw [← hfront]
        exact ⟨_, rfl⟩
      rw [hmore] at htokens
      exact start_of_name (by decide) htokens
    show word.span.join (closing (inside (front ++ file.toList) u).next).value = _
    rw [hclose]
    subst hcloser
    have hstop : word.span.stop ≤ Text.width (opened texts) := hbefore.2
    simp only [Span.join, hstart, Span.mk.injEq]
    omega
  · -- What is left are the tokens of the file, moved.
    have hmoved : Moved (Text.width front) (topTurn (front ++ file.toList) s).next
        (State.initial (scan file).tokens) := by
      rw [Moved, hnext, rest_initial]
      exact hbehind
    exact (alike_allEntries hmoved).1

/-- A value is missing, and an array breaks off at a semicolon inside of its braces. -/
def malformed : List (List Char) :=
  ["x", "=", ";", "y", "[", "]", "=", "\x7b", "1", ";", "2", "\x7d", ";"].map String.toList

/-- The tokens that these are, without their places. -/
def malformedLexemes : List Lexeme := [
  ⟨.identifier, "x"⟩, ⟨.assignment, "="⟩, ⟨.semicolon, ";"⟩, ⟨.identifier, "y"⟩,
  ⟨.openBracket, "["⟩, ⟨.closeBracket, "]"⟩, ⟨.assignment, "="⟩, ⟨.openCurly, "\x7b"⟩,
  ⟨.number, "1"⟩, ⟨.semicolon, ";"⟩, ⟨.number, "2"⟩, ⟨.closeCurly, "\x7d"⟩, ⟨.semicolon, ";"⟩]

theorem parse_enclosed_malformed :
    malformed.map alone? = malformedLexemes.map some ∧
    Balanced (malformedLexemes.map Lexeme.kind) ∧
    Piece.cut false "r = 4;".toList = pieces "r = 4;".toList ∧
    ∃ c others, (parse (enclosed malformed ' ' "r = 4;")).entries = .nested c :: others ∧
      c.span = ⟨0, Text.width (opened malformed) + 1⟩ ∧
      others.map Entry.unplaced = (parse "r = 4;").entries.map Entry.unplaced := by
  have htexts : malformed.map alone? = malformedLexemes.map some := by decide +kernel
  have hbalanced : Balanced (malformedLexemes.map Lexeme.kind) := by decide
  have hline : Piece.cut false "r = 4;".toList = pieces "r = 4;".toList := by decide +kernel
  refine ⟨htexts, hbalanced, hline, ?_⟩
  obtain ⟨c, others, hparse, -, -, -, hcontained⟩ :=
    parse_enclosed malformed malformedLexemes ' ' "r = 4;" htexts hbalanced (by decide)
      (.inr hline)
  have hnone : entriesHoldBrace (parse (enclosed malformed ' ' "r = 4;")).entries = false := by
    decide +kernel
  rw [hparse, entriesHoldBrace, Entry.holdsBrace, Bool.or_eq_false_iff] at hnone
  obtain ⟨hspan, hothers⟩ := hcontained hnone.1
  exact ⟨c, others, hparse, hspan, hothers⟩

/-- The raw text `a { b` has an opening brace. Balanced as the braces are, the one that closes it
closes the class. -/
def swallowing : List (List Char) :=
  ["x", "=", "a", "\x7b", "b", ";", "\x7d", "y", "=", "1", ";"].map String.toList

/-- Without the condition on raw texts the statement is wrong: the class ends too early, and the
entry `y` is read behind it. -/
theorem brace_escapes :
    ¬ ∀ (texts : List (List Char)) (ls : List Lexeme) (gap : Char) (file : String),
      texts.map alone? = ls.map some → Balanced (ls.map Lexeme.kind) →
      Text.isBlank gap = true →
      gap = '\n' ∨ Piece.cut false file.toList = pieces file.toList →
      ∃ c others, (parse (enclosed texts gap file)).entries = .nested c :: others ∧
        c.name = "A" ∧ c.span = ⟨0, Text.width (opened texts) + 1⟩ ∧
        others.map Entry.unplaced = (parse file).entries.map Entry.unplaced := by
  intro h
  obtain ⟨c, others, hparse, _, hspan, _⟩ := h swallowing
    [⟨.identifier, "x"⟩, ⟨.assignment, "="⟩, ⟨.identifier, "a"⟩, ⟨.openCurly, "\x7b"⟩,
      ⟨.identifier, "b"⟩, ⟨.semicolon, ";"⟩, ⟨.closeCurly, "\x7d"⟩, ⟨.identifier, "y"⟩,
      ⟨.assignment, "="⟩, ⟨.number, "1"⟩, ⟨.semicolon, ";"⟩]
    '\n' "R = 2;" (by decide +kernel) (by decide) (by decide) (.inl rfl)
  have hspans : (parse (enclosed swallowing '\n' "R = 2;")).entries.map Entry.span =
      [⟨0, 23⟩, ⟨24, 29⟩, ⟨35, 40⟩] := by
    decide +kernel
  have hwidth : Text.width (opened swallowing) + 1 = 33 := by decide +kernel
  rw [hparse] at hspans
  have hfirst : c.span = ⟨0, 23⟩ := (List.cons.inj hspans).1
  rw [hspan, hwidth] at hfirst
  cases hfirst

end Files

end Sqf.Config
