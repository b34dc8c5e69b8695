import Sqf.Proofs.Config.Print
import Sqf.Proofs.Config.Reads

/-!
# Reading back a config file

What `print` writes of entries is read as these entries, up to spans and without a
report (`parse_print`). The proof follows the parser: a value, a property and the head
of a class are read token by token, and the entries of a class by induction over what
can be written.
-/

namespace Sqf

/-! ## Names -/

theorem Token.isName_of_lexeme {t : Token} {text : String}
    (h : t.lexeme = Config.Lexemes.name text) : t.isName = true ∧ t.value = text := by
  have hkind : t.kind = .ofWord text := congrArg Lexeme.kind h
  refine ⟨?_, congrArg Lexeme.value h⟩
  rw [Token.isName, hkind]
  exact Kind.isNameKind_ofWord text

namespace Text

/-- A text without blanks stays as it is. -/
theorem trim_of_no_blank {cs : List Char} (h : ∀ c ∈ cs, isBlank c = false) : trim cs = cs := by
  have hright : ∀ ds : List Char, (∀ c ∈ ds, isBlank c = false) → trimRight ds = ds := by
    intro ds hds
    induction ds with
    | nil => rfl
    | cons d ds ih =>
      have hrest := ih fun c hc => hds c (List.mem_cons_of_mem _ hc)
      rw [trimRight, hrest]
      cases ds with
      | nil => simp [hds d List.mem_cons_self]
      | cons => rfl
  have hleft : cs.dropWhile isBlank = cs := by
    cases cs with
    | nil => rfl
    | cons c cs => simp [h c List.mem_cons_self]
  rw [trim, hleft, hright cs h]

end Text

namespace Config

open Parse (State state kind advance spanFrom expect commaList many)

/-! ## Values -/

section Values

variable {source : List Char} {numeral : Double → String} {rest : List Lexeme}

theorem endsWord_of_isNameKind {k : Kind} (h : k.isNameKind = true) : endsWord k = false := by
  revert h
  cases k <;> decide

/-- A single name is read as a word. -/
theorem yields_word {w : String} (h : IsName w.toList) (hrest : endsWord (kindOf rest) = true) :
    Yields source (word source) (Lexemes.name w :: rest) rest (· = .word w) := by
  intro s hs
  obtain ⟨t, ts, hts, ht, hmore⟩ := hs.exists_cons
  have hkind : t.kind.isNameKind = true := by
    rw [show t.kind = .ofWord w from congrArg Lexeme.kind ht]
    exact Kind.isNameKind_ofWord w
  have hvalue : t.value = w := congrArg Lexeme.value ht
  have hin : endsWord t.kind = false := endsWord_of_isNameKind hkind
  have hstring : t.kind ≠ .string := by
    intro heq
    rw [heq] at hkind
    cases hkind
  -- The word ends behind its only token.
  have hone : s.rest.takeWhile (fun t => !endsWord t.kind) = [t] := by
    rw [hts, List.takeWhile_cons, hin]
    cases ts with
    | nil => rfl
    | cons u us =>
      have hends : endsWord u.kind = true := by
        rw [← hmore] at hrest
        exact hrest
      simp [hends]
  have hslice := hs.spelled t (by rw [hts]; exact List.mem_cons_self) hstring
  have hnone : ∀ c ∈ w.toList, Text.isBlank c = false :=
    fun c hc => isBlank_of_isNamePart (List.all_eq_true.1 h.2 c hc)
  have hnext : (word source s).next = { s with rest := ts, lastEnd := t.span.stop } := by
    show s.drop (s.rest.takeWhile fun t => !endsWord t.kind).length = _
    rw [hone, State.drop, hts]
    rfl
  refine ⟨?_, ?_, ?_⟩
  · show Value.word (.ofList (Text.trim ((Text.slice? s.token.span.start
      (word source s).next.lastEnd source).getD []))) = .word w
    rw [hnext, State.token_cons hts, hslice, hvalue, Option.getD_some,
      Text.trim_of_no_blank hnone, String.ofList_toList]
  · rw [hnext]
    exact ⟨hmore, fun u hu => hs.spelled u (by rw [hts]; exact List.mem_cons_of_mem _ hu)⟩
  · rw [hnext]

/-- A number is read back, with the sign in front of it. -/
theorem gives_number {text : List Char} {x y : Double} {negative : Bool}
    (hx : Numeral.read? (.ofList text) = some x) (hy : y = if negative then x.neg else x) :
    Gives source (number negative) (⟨.number, .ofList text⟩ :: rest) rest (· = .number y) := by
  refine Gives.bind (Gives.expect (l := ⟨.number, .ofList text⟩) "a number") fun t ht => ?_
  have hvalue : t.value = .ofList text := congrArg Lexeme.value ht
  rw [hvalue, hx]
  exact Gives.pure (by rw [hy])

/-- What a value begins with does not end it. -/
theorem endsWord_value {n : Nat} {v : Value} (h : v.Writable numeral n) (ls : List Lexeme) :
    endsWord (kindOf (Lexemes.value numeral v ++ ls)) = false := by
  cases h with
  | @number n x h =>
    rw [Lexemes.value]
    generalize (numeral x).toList = text at h
    cases h with
    | plain h => rw [number_lexemes h]; rfl
    | negated h => rfl
  | string => rfl
  | word h => exact endsWord_of_isNameKind (Kind.isNameKind_ofWord _)
  | array h => rfl

/-- The items of an array are read back, up to its closing brace. -/
theorem gives_items {n : Nat} {items : List Value} (hw : ∀ v ∈ items, v.Writable numeral n)
    (h : ∀ v ∈ items, ∀ rest, endsWord (kindOf rest) = true →
      Gives source (valueWith source (array source n)) (Lexemes.value numeral v ++ rest) rest
        (· = v)) :
    Gives source (commaList .closeCurly "`,` or `\x7d`" (valueWith source (array source n)))
      (Lexemes.values numeral items ++ Lexemes.closeCurly :: rest) (Lexemes.closeCurly :: rest)
      (· = items) := by
  induction items with
  | nil =>
    rw [Parse.commaList_eq (by decide)]
    exact Gives.kind_bind (Gives.pure rfl)
  | cons v vs ih =>
    have hothers := ih (fun w hw' => hw w (List.mem_cons_of_mem _ hw'))
      fun w hw' => h w (List.mem_cons_of_mem _ hw')
    obtain ⟨hwv, _⟩ := List.forall_mem_cons.1 hw
    -- No value starts with a closing brace, so the list is not taken for an empty one.
    have hclose : ∀ ls, kindOf (Lexemes.value numeral v ++ ls) ≠ .closeCurly := by
      intro ls heq
      have := endsWord_value hwv ls
      rw [heq] at this
      cases this
    rw [Parse.commaList_eq (by decide)]
    -- The last item has no comma behind it.
    cases vs with
    | nil =>
      refine Gives.kind_bind ?_
      rw [Lexemes.values, if_neg (hclose _)]
      refine (h v List.mem_cons_self _ rfl).bind ?_
      rintro _ rfl
      exact Gives.kind_bind (Gives.pure rfl)
    | cons w vs =>
      have hcons : Lexemes.values numeral (v :: w :: vs) ++ Lexemes.closeCurly :: rest =
          Lexemes.value numeral v ++ Lexemes.comma :: (Lexemes.values numeral (w :: vs) ++
            Lexemes.closeCurly :: rest) := by
        rw [Lexemes.values, List.append_assoc, List.cons_append]
        exact nofun
      rw [hcons]
      refine Gives.kind_bind ?_
      rw [if_neg (hclose _)]
      refine (h v List.mem_cons_self _ rfl).bind ?_
      rintro _ rfl
      refine Gives.kind_bind (Gives.lift_bind Yields.advance fun _ _ => ?_)
      refine hothers.bind ?_
      rintro _ rfl
      exact Gives.pure rfl

/-- A value is read back, if what follows ends raw text. -/
theorem gives_value {n : Nat} {v : Value} (h : v.Writable numeral n) :
    ∀ rest, endsWord (kindOf rest) = true →
      Gives source (valueWith source (array source n)) (Lexemes.value numeral v ++ rest) rest
        (· = v) := by
  induction h with
  | @number n x h =>
    intro rest hrest
    rw [Lexemes.value]
    generalize (numeral x).toList = text at h
    cases h with
    | plain h hx =>
      rw [number_lexemes h]
      exact Gives.kind_bind (gives_number hx rfl)
    | negated h hx =>
      exact Gives.kind_bind (Gives.lift_bind Yields.advance fun _ _ => gives_number hx rfl)
  | string =>
    intro rest hrest
    refine Gives.kind_bind (Gives.lift_bind Yields.advance fun t ht => ?_)
    exact Gives.pure (congrArg (fun l => Value.string l.value) ht)
  | @word n w h =>
    intro rest hrest
    have hkind : (kindOf (Lexemes.value numeral (.word w) ++ rest)).isNameKind = true :=
      Kind.isNameKind_ofWord w
    unfold valueWith
    refine Gives.kind_bind ?_
    -- A name is no other kind of value, and it does not end one.
    split
    · next heq => rw [heq] at hkind; cases hkind
    · next heq => rw [heq] at hkind; cases hkind
    · next heq => rw [heq] at hkind; cases hkind
    · next heq => rw [heq] at hkind; cases hkind
    · rw [endsWord_of_isNameKind hkind]
      exact Gives.lift (yields_word h hrest)
  | array hw ih =>
    intro rest hrest
    rw [Lexemes.value, List.cons_append, List.append_assoc]
    refine Gives.kind_bind (Gives.lift_bind Yields.advance fun _ _ => ?_)
    refine (gives_items hw ih).bind ?_
    rintro _ rfl
    refine Gives.lift_bind Yields.advance fun _ _ => ?_
    exact Gives.pure rfl

end Values

/-! ## Properties -/

section Entries

variable {source : List Char} {numeral : Double → String} {rest : List Lexeme}

/-- Brackets behind the name tell that it is an array. -/
theorem gives_brackets (isArray appends : Bool) :
    Gives source brackets (Lexemes.brackets isArray ++ Lexemes.sign appends :: rest)
      (Lexemes.sign appends :: rest) (· = isArray) := by
  cases isArray with
  | true =>
    refine Gives.kind_bind (Gives.lift_bind Yields.advance fun _ _ => ?_)
    exact (Gives.expect (l := Lexemes.symbol ']' .closeBracket) "`]`").bind fun _ _ =>
      Gives.pure rfl
  | false =>
    refine Gives.kind_bind ?_
    cases appends <;> exact Gives.pure rfl

/-- Only to an array something may be added. -/
theorem gives_assignment {isArray appends : Bool} (h : appends = true → isArray = true) :
    Gives source (assignment isArray) (Lexemes.sign appends :: rest) rest (· = appends) := by
  refine Gives.kind_bind ?_
  cases appends with
  | true =>
    rw [h rfl]
    exact Gives.lift_bind Yields.advance fun _ _ => Gives.pure rfl
  | false => exact Gives.lift_bind Yields.advance fun _ _ => Gives.pure rfl

theorem yields_terminator (stop : Nat) :
    Yields source (terminator stop) (Lexemes.semicolon :: rest) rest fun _ => True := by
  refine Yields.state_bind fun s hs => ?_
  have hkind : s.kind = .semicolon := hs.kind
  rw [if_pos hkind]
  exact Yields.advance.bind fun _ _ => Yields.pure trivial

/-- A property is read back, up to its span. -/
theorem gives_property {n : Nat} {p : Property} (hvalue : p.value.Writable numeral n)
    (harray : p.isArray = true → ∃ items, p.value = .array items)
    (happends : p.appends = true → p.isArray = true) :
    Gives source (property (valueWith source (array source n)))
      (Lexemes.property numeral p ++ rest) rest fun q =>
        (Entry.property q).unplaced = (Entry.property p).unplaced := by
  have hwords : Lexemes.property numeral p ++ rest =
      Lexemes.name p.name :: (Lexemes.brackets p.isArray ++ Lexemes.sign p.appends ::
        (Lexemes.value numeral p.value ++ Lexemes.semicolon :: rest)) := by
    simp [Lexemes.property]
  rw [hwords]
  refine Gives.lift_bind Yields.advance fun name hname => ?_
  refine (gives_brackets p.isArray p.appends).bind ?_
  rintro _ rfl
  refine (gives_assignment happends).bind ?_
  rintro _ rfl
  refine Gives.kind_bind ?_
  have hread : Gives source (do
      let v ← valueWith source (array source n)
      let span ← (Parse.spanFrom name.span : Parse Span)
      (terminator span.stop : Parse Unit)
      return (⟨name.value, v, p.isArray, p.appends, span⟩ : Property))
      (Lexemes.value numeral p.value ++ Lexemes.semicolon :: rest) rest fun q =>
        (Entry.property q).unplaced = (Entry.property p).unplaced := by
    refine (gives_value hvalue _ rfl).bind ?_
    rintro _ rfl
    refine Gives.spanFrom_bind fun span => ?_
    refine Gives.lift_bind (yields_terminator _) fun _ _ => ?_
    refine Gives.pure ?_
    rw [show name.value = p.name from congrArg Lexeme.value hname]
    rfl
  -- With brackets the value is an array, which begins with the brace that is asked for.
  split
  · next hmissing =>
    simp only [Bool.and_eq_true, decide_eq_true_eq] at hmissing
    obtain ⟨items, hitems⟩ := harray hmissing.1
    rw [hitems] at hmissing
    exact absurd rfl hmissing.2
  · exact hread

/-! ## Classes -/

theorem gives_name (text : String) (expectation : String) :
    Gives source (name expectation) (Lexemes.name text :: rest) rest fun t => t.value = text := by
  refine Gives.state_bind fun s hs => ?_
  rw [if_pos (Token.isName_of_lexeme hs.token).1]
  exact Gives.lift (Yields.mono Yields.advance fun t ht => (Token.isName_of_lexeme ht).2)

/-- The parent of a class is told from its colon. -/
theorem gives_parent (base : Option String) {l : Lexeme} (hl : l.kind ≠ .colon) :
    Gives source parent (Lexemes.parent base ++ l :: rest) (l :: rest) (· = base) := by
  refine Gives.kind_bind ?_
  cases base with
  | none =>
    rw [show kindOf (Lexemes.parent none ++ l :: rest) = l.kind from rfl, if_neg hl]
    exact Gives.pure rfl
  | some b =>
    refine Gives.lift_bind Yields.advance fun _ _ => ?_
    refine (gives_name b "a base class name").bind fun t ht => ?_
    exact Gives.pure (congrArg some ht)

theorem yields_closing : Yields source closing
    (Lexemes.closeCurly :: Lexemes.semicolon :: rest) rest fun _ => True := by
  refine Yields.state_bind fun s hs => ?_
  have hkind : s.kind = .closeCurly := hs.kind
  rw [if_pos hkind]
  refine Yields.advance.bind fun t _ => ?_
  exact (yields_terminator _).bind fun _ _ => Yields.pure trivial

/-- The head of a class up to its base, with what is read behind it. -/
theorem gives_classWith {body : Attempt (List Entry)} {text : String} {base : Option String}
    {l : Lexeme} {ls : List Lexeme} {P : Class → Prop} (hl : l.kind ≠ .colon)
    (h : ∀ start : Token, Gives source (do
      match ← (kind : Parse Kind) with
      | .semicolon =>
        let stop ← (advance : Parse Token)
        return ⟨text, base, [], true, start.span.join stop.span⟩
      | .openCurly =>
        let entries ← body
        let close ← (closing : Parse Span)
        return ⟨text, base, entries, false, start.span.join close⟩
      | _ => Parse.failUnexpected "`\x7b` or `;`") (l :: ls) rest P) :
    Gives source (classWith body)
      (Lexemes.name "class" :: Lexemes.name text :: (Lexemes.parent base ++ l :: ls)) rest P := by
  refine Gives.lift_bind Yields.advance fun start _ => ?_
  refine (gives_name text "a class name").bind ?_
  rintro t rfl
  refine (gives_parent base hl).bind ?_
  rintro _ rfl
  exact h start

/-- A class without a body is read back as one that is only announced. -/
theorem gives_forward {body : Attempt (List Entry)} (text : String) (base : Option String) :
    Gives source (classWith body) (Lexemes.name "class" :: Lexemes.name text ::
        (Lexemes.parent base ++ Lexemes.semicolon :: rest)) rest fun c =>
      c.unplaced = ⟨text, base, [], true, {}⟩ := by
  refine gives_classWith (by decide) fun start => ?_
  refine Gives.kind_bind (Gives.lift_bind Yields.advance fun _ _ => ?_)
  exact Gives.pure rfl

/-- A class is read back with its entries. -/
theorem gives_nested {body : Attempt (List Entry)} (text : String) (base : Option String)
    {ls : List Lexeme} {es : List Entry}
    (hbody : Gives source body (Lexemes.openCurly :: ls)
      (Lexemes.closeCurly :: Lexemes.semicolon :: rest) fun es' => unplacedAll es' = es) :
    Gives source (classWith body) (Lexemes.name "class" :: Lexemes.name text ::
        (Lexemes.parent base ++ Lexemes.openCurly :: ls)) rest fun c =>
      c.unplaced = ⟨text, base, es, false, {}⟩ := by
  refine gives_classWith (by decide) fun start => ?_
  refine Gives.kind_bind (hbody.bind fun es' hes' => ?_)
  refine Gives.lift_bind yields_closing fun _ _ => ?_
  refine Gives.pure ?_
  rw [Class.unplaced, hes']

/-! ## Entries -/

/-- A class is an entry, told from the word that it starts with. -/
theorem gives_entry_nested {body : Attempt (List Entry)} {value : Attempt Value}
    {ls : List Lexeme} {c : Class}
    (h : Gives source (classWith body) (Lexemes.name "class" :: ls) rest fun c' =>
      c'.unplaced = c.unplaced) :
    Gives source (entry body value) (Lexemes.name "class" :: ls) rest fun e =>
      e.unplaced = (Entry.nested c).unplaced := by
  refine Gives.state_bind fun s hs => ?_
  obtain ⟨hname, htext⟩ := Token.isName_of_lexeme hs.token
  have hclass : sameName s.token.value "class" = true := by simp [htext, sameName]
  simp only [hname, hclass, Bool.not_true, Bool.false_eq_true, ↓reduceIte]
  refine h.bind fun c' hc' => ?_
  refine Gives.pure ?_
  rw [Entry.unplaced, Entry.unplaced, hc']

/-- Any other name starts a property. -/
theorem gives_entry_property {body : Attempt (List Entry)} {value : Attempt Value} {p : Property}
    {ls : List Lexeme} (hclass : sameName p.name "class" = false)
    (h : Gives source (property value) (Lexemes.name p.name :: ls) rest fun q =>
      (Entry.property q).unplaced = (Entry.property p).unplaced) :
    Gives source (entry body value) (Lexemes.name p.name :: ls) rest fun e =>
      e.unplaced = (Entry.property p).unplaced := by
  refine Gives.state_bind fun s hs => ?_
  obtain ⟨hname, htext⟩ := Token.isName_of_lexeme hs.token
  rw [← htext] at hclass
  simp only [hname, hclass, Bool.not_true, Bool.false_eq_true, ↓reduceIte]
  exact h.bind fun q hq => Gives.pure hq

/-- An entry makes a turn of the loop over entries. -/
theorem yields_turn {body : Attempt (List Entry)} {value : Attempt Value} {text : String}
    {ls : List Lexeme} {P : Entry → Prop}
    (h : Gives source (entry body value) (Lexemes.name text :: ls) rest P) :
    Yields source (turn body value) (Lexemes.name text :: ls) rest fun r =>
      ∃ e, r = some (some e) ∧ P e := by
  have hkind : (kindOf (Lexemes.name text :: ls)).isNameKind = true :=
    Kind.isNameKind_ofWord text
  unfold turn
  refine Yields.kind_bind ?_
  split
  · next heq => rw [heq] at hkind; cases hkind
  · next heq => rw [heq] at hkind; cases hkind
  · next heq => rw [heq] at hkind; cases hkind
  · refine Yields.state_bind fun s _ => Yields.run_bind h fun e he => ?_
    exact Yields.pure ⟨e, rfl, he⟩

/-- The loop over entries stops where they end. -/
theorem yields_turn_end (body : Attempt (List Entry)) (value : Attempt Value)
    (hrest : kindOf rest = .endOfInput ∨ kindOf rest = .closeCurly) :
    Yields source (turn body value) rest rest (· = none) := by
  refine Yields.kind_bind ?_
  rcases hrest with hrest | hrest
  · rw [hrest]
    exact Yields.pure rfl
  · rw [hrest]
    exact Yields.pure rfl

/-- Entries are read one after the other, up to the end of input or the brace that closes their
class. -/
theorem yields_many {body : Attempt (List Entry)} {value : Attempt Value} {es : List Entry}
    (hrest : kindOf rest = .endOfInput ∨ kindOf rest = .closeCurly)
    (h : ∀ e ∈ es, (∃ text ls, Lexemes.entry numeral e = Lexemes.name text :: ls) ∧
      ∀ rest, Gives source (entry body value) (Lexemes.entry numeral e ++ rest) rest
        fun e' => e'.unplaced = e.unplaced) :
    Yields source (many (turn body value)) (Lexemes.lines numeral es ++ rest) rest
      fun found => unplacedAll (found.filterMap id) = unplacedAll es := by
  induction es with
  | nil =>
    intro s hs
    obtain ⟨hvalue, hbefore, hreports⟩ := yields_turn_end body value hrest s hs
    obtain ⟨hnil, hnext⟩ := Parse.many_of_none hvalue
    rw [hnil, hnext]
    exact ⟨rfl, hbefore, hreports⟩
  | cons e es ih =>
    obtain ⟨⟨text, ls, hname⟩, hentry⟩ := h e List.mem_cons_self
    have hturn := hentry (Lexemes.lines numeral es ++ rest)
    rw [hname] at hturn
    intro s hs
    rw [Lexemes.lines, List.append_assoc, hname] at hs
    obtain ⟨⟨e', hvalue, he'⟩, hbefore, hreports⟩ := yields_turn hturn s hs
    -- The name at least has been read, so the loop goes on.
    have hread : (turn body value s).next.rest.length < s.rest.length := by
      rw [hbefore.length, hs.length]
      simp only [List.cons_append, List.length_cons, List.length_append]
      omega
    obtain ⟨hcons, hnext⟩ := Parse.many_of_some hvalue hread
    obtain ⟨hfound, hbefore', hreports'⟩ :=
      ih (fun d hd => h d (List.mem_cons_of_mem _ hd)) _ hbefore
    rw [hcons, hnext]
    refine ⟨?_, hbefore', hreports'.trans hreports⟩
    show e'.unplaced :: unplacedAll _ = e.unplaced :: unplacedAll es
    rw [he']
    exact congrArg _ hfound

/-- Entries are read back one by one. -/
theorem yields_entriesWith {body : Attempt (List Entry)} {value : Attempt Value} {es : List Entry}
    (hrest : kindOf rest = .endOfInput ∨ kindOf rest = .closeCurly)
    (h : ∀ e ∈ es, (∃ text ls, Lexemes.entry numeral e = Lexemes.name text :: ls) ∧
      ∀ rest, Gives source (entry body value) (Lexemes.entry numeral e ++ rest) rest
        fun e' => e'.unplaced = e.unplaced) :
    Yields source (entriesWith body value) (Lexemes.lines numeral es ++ rest) rest
      fun es' => unplacedAll es' = unplacedAll es :=
  (yields_many hrest h).bind fun _ hfound => Yields.pure hfound

/-- An entry that can be written is read back wherever there are as many levels left as it needs. -/
theorem gives_entry {n : Nat} {e : Entry} (h : e.Writable numeral n) :
    (∃ text ls, Lexemes.entry numeral e = Lexemes.name text :: ls) ∧
      ∀ rest, Gives source (entry (body source n) (valueWith source (array source n)))
        (Lexemes.entry numeral e ++ rest) rest fun e' => e'.unplaced = e.unplaced := by
  -- Induction on what can be written: the entries of a class have a level less.
  induction h with
  | property hname hclass hvalue harray happends =>
    refine ⟨⟨_, _, rfl⟩, fun rest => ?_⟩
    exact gives_entry_property hclass (gives_property hvalue harray happends)
  | @forward n text base span hname hbase =>
    refine ⟨⟨_, _, rfl⟩, fun rest => ?_⟩
    have hwords : Lexemes.entry numeral (.nested ⟨text, base, [], true, span⟩) ++ rest =
        Lexemes.name "class" :: Lexemes.name text ::
          (Lexemes.parent base ++ Lexemes.semicolon :: rest) := by
      simp [Lexemes.entry, Lexemes.nested]
    rw [hwords]
    exact gives_entry_nested (gives_forward text base)
  | @nested n text base es span hname hbase _ ih =>
    refine ⟨⟨_, _, rfl⟩, fun rest => ?_⟩
    have hwords : Lexemes.entry numeral (.nested ⟨text, base, es, false, span⟩) ++ rest =
        Lexemes.name "class" :: Lexemes.name text :: (Lexemes.parent base ++ Lexemes.openCurly ::
          (Lexemes.lines numeral es ++ Lexemes.closeCurly :: Lexemes.semicolon :: rest)) := by
      simp [Lexemes.entry, Lexemes.nested]
    have hbody : Gives source (body source (n + 1)) (Lexemes.openCurly ::
        (Lexemes.lines numeral es ++ Lexemes.closeCurly :: Lexemes.semicolon :: rest))
        (Lexemes.closeCurly :: Lexemes.semicolon :: rest)
        fun es' => unplacedAll es' = unplacedAll es :=
      Gives.lift_bind Yields.advance fun _ _ =>
        Gives.lift (yields_entriesWith (.inr rfl) ih)
    rw [hwords]
    exact gives_entry_nested (gives_nested text base hbody)

/-- Behind the entries of a file there is no stray brace. -/
theorem yields_allEntries {es : List Entry}
    (h : ∀ e ∈ es, e.Writable numeral Parse.maxNesting) :
    Yields source (allEntries source) (Lexemes.lines numeral es) []
      fun es' => unplacedAll es' = unplacedAll es := by
  have hentries : Yields source (topEntries source) (Lexemes.lines numeral es ++ []) []
      fun es' => unplacedAll es' = unplacedAll es :=
    yields_entriesWith (.inl rfl) fun e he => gives_entry (h e he)
  rw [List.append_nil] at hentries
  refine hentries.bind fun es' hes' => ?_
  have hstray : Yields source (strayTurn source) [] [] (· = none) :=
    Yields.kind_bind (Yields.pure rfl)
  have hmany : Yields source (many (strayTurn source)) [] [] (· = []) := by
    intro s hs
    obtain ⟨hvalue, hbefore, hreports⟩ := hstray s hs
    obtain ⟨hnil, hnext⟩ := Parse.many_of_none hvalue
    rw [hnil, hnext]
    exact ⟨rfl, hbefore, hreports⟩
  refine hmany.bind ?_
  rintro _ rfl
  refine Yields.pure ?_
  rwa [List.flatten_nil, List.append_nil]

end Entries

/-! ## Files -/

/-- What is written of entries is read back. Entries that can be written and are not nested more
deeply than the limit come back as they were up to spans, and nothing is reported. -/
theorem parse_print (numeral : Double → String) (es : List Entry)
    (h : ∀ e ∈ es, e.Writable numeral Parse.maxNesting) :
    (parse (print numeral es)).diagnostics = [] ∧
      (parse (print numeral es)).entries.map Entry.unplaced = es.map Entry.unplaced := by
  obtain ⟨ts, finish, htokens, hlexemes, hclean⟩ := scan_print h
  have hpieces : Piece.tokens 0 (pieces (print numeral es).toList) = ts := by
    rw [tokens_scan] at htokens
    exact (List.append_inj' htokens rfl).1
  have hinitial : (State.initial (scan (print numeral es)).tokens).rest = ts := by
    rw [htokens]
    simp [State.initial, Token.endAt]
  -- The text is scanned to the tokens of the entries, before which the parser starts.
  have hbefore : Before (print numeral es).toList (Lexemes.lines numeral es)
      (.initial (scan (print numeral es)).tokens) := by
    constructor
    · rw [hinitial, hlexemes]
    · rw [hinitial, ← hpieces]
      exact fun t ht hkind => slice?_of_mem ht hkind
  obtain ⟨hvalue, _, hreports⟩ := yields_allEntries h _ hbefore
  have hnone : (allEntries (print numeral es).toList
      (.initial (scan (print numeral es)).tokens)).next.diagnostics = #[] :=
    hreports.trans (Parse.initial_found _).2.2.1
  constructor
  · rw [parse]
    simp [hclean, hnone, Diagnostic.sortByStart]
  · rw [← unplacedAll_eq_map, ← unplacedAll_eq_map]
    exact hvalue

/-- A class with a keyword for its base and an array that is added to, and a class that is only
announced. -/
def turret : List Entry := [
  .nested ⟨"Turret", some "default", [
    .property ⟨"gun", .array [.number (Double.ofNat 1).neg, .string "a\"b", .array [.word "and"]],
      true, true, {}⟩], false, {}⟩,
  .nested ⟨"class", none, [], true, {}⟩]

theorem parse_print_turret :
    let numeral : Double → String := fun _ => "-1.0"
    print numeral turret = "class Turret : default \x7bgun[] += \x7b-1.0, \"a\"\"b\", " ++
        "\x7band\x7d\x7d;\n\x7d;\nclass class;\n" ∧
      (∀ e ∈ turret, e.Writable numeral Parse.maxNesting) ∧
      (parse (print numeral turret)).diagnostics = [] ∧
      (parse (print numeral turret)).entries.map Entry.unplaced = turret.map Entry.unplaced := by
  intro numeral
  have hone : IsDecimal ['1', '.', '0'] :=
    ⟨['1'], ['.', '0'], [], rfl, rfl, .digits (by simp) rfl, .none, by simp⟩
  have hread : Numeral.read? (.ofList ['1', '.', '0']) = some (Double.ofNat 1) := by
    decide +kernel
  have htext : "-1.0".toList = '-' :: ['1', '.', '0'] := by decide
  have hnumber : (Value.number (Double.ofNat 1).neg).Writable numeral 126 := by
    refine .number ?_
    show Spells "-1.0".toList _
    rw [htext]
    exact .negated hone hread
  have hword : (Value.array [.word "and"]).Writable numeral 126 := by
    refine .array fun v hv => ?_
    rw [List.mem_singleton.1 hv]
    exact .word (by decide)
  -- The items are written with a level less than the array that holds them.
  have hitems : (Value.array [.number (Double.ofNat 1).neg, .string "a\"b",
      .array [.word "and"]]).Writable numeral 127 := by
    refine .array fun v hv => ?_
    simp only [List.mem_cons, List.not_mem_nil, or_false] at hv
    rcases hv with rfl | rfl | rfl
    · exact hnumber
    · exact .string
    · exact hword
  have hwritable : ∀ e ∈ turret, e.Writable numeral Parse.maxNesting := by
    intro e he
    simp only [turret, List.mem_cons, List.not_mem_nil, or_false] at he
    rcases he with rfl | rfl
    · refine .nested (by decide) (by decide) fun e he => ?_
      rw [List.mem_singleton.1 he]
      exact .property (by decide) (by decide +kernel) hitems (fun _ => ⟨_, rfl⟩) fun _ => rfl
    · exact .forward (by decide) nofun
  exact ⟨by decide +kernel, hwritable, parse_print numeral turret hwritable⟩

end Config

end Sqf
