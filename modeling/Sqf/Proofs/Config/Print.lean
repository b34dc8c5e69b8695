import Sqf.Config
import Sqf.Numeral
import Sqf.Proofs.Token.Lexeme

/-!
# How a config file is written

`print` writes entries one on a line, each with a semicolon. `Entry.Writable` says
what an entry must have to be written like this, and `scan_print` that the text is
scanned to the tokens of the entries and nothing else.
-/

namespace Sqf.Config

namespace Print

section

-- A number is written as this gives it.
variable (numeral : Double → String)

mutual

def value : Value → List Char
  | .number x => (numeral x).toList
  | .string s => '"' :: (Text.doubled '"' s.toList ++ ['"'])
  | .word w => w.toList
  | .array items => '\x7b' :: (values items ++ ['\x7d'])

/-- Values with commas between them. -/
def values : List Value → List Char
  | [] => []
  | [v] => value v
  | v :: vs => value v ++ ',' :: ' ' :: values vs

end

/-- The sign between name and value. -/
def sign (appends : Bool) : List Char := if appends then ['+', '='] else ['=']

def brackets (isArray : Bool) : List Char := if isArray then ['[', ']'] else []

def parent : Option String → List Char
  | none => []
  | some b => ' ' :: ':' :: ' ' :: b.toList

def property (p : Property) : List Char :=
  p.name.toList ++ (brackets p.isArray ++
    ' ' :: (sign p.appends ++ ' ' :: (value numeral p.value ++ [';'])))

mutual

def entry : Entry → List Char
  | .property p => property numeral p
  | .nested c => nested c

def nested : Class → List Char
  | ⟨name, base, entries, isForward, _⟩ => "class".toList ++ ' ' :: (name.toList ++
    (parent base ++ if isForward then [';'] else ' ' :: '\x7b' :: (lines entries ++ ['\x7d', ';'])))

/-- Entries, each on a line of its own. -/
def lines : List Entry → List Char
  | [] => []
  | e :: es => entry e ++ '\n' :: lines es

end

end

end Print

/-- The text of entries. -/
def print (numeral : Double → String) (es : List Entry) : String :=
  .ofList (Print.lines numeral es)

/-! ## What can be written -/

/-- A number is written as a decimal numeral, or as that of its negation with a minus. -/
inductive Spells : List Char → Double → Prop
  | plain {text : List Char} {x : Double} (h : IsDecimal text)
    (hx : Numeral.read? (.ofList text) = some x) : Spells text x
  | negated {text : List Char} {x : Double} (h : IsDecimal text)
    (hx : Numeral.read? (.ofList text) = some x) : Spells ('-' :: text) x.neg

/-- A value that can be written, its arrays nested to `n` levels at most. -/
inductive Value.Writable (numeral : Double → String) : Nat → Value → Prop
  | number {n : Nat} {x : Double} (h : Spells (numeral x).toList x) : Writable numeral n (.number x)
  | string {n : Nat} {s : String} : Writable numeral n (.string s)
  | word {n : Nat} {w : String} (h : IsName w.toList) : Writable numeral n (.word w)
  | array {n : Nat} {items : List Value} (h : ∀ v ∈ items, Writable numeral n v) :
    Writable numeral (n + 1) (.array items)

/-- An entry that can be written, its classes and arrays nested to `n` levels at most. -/
inductive Entry.Writable (numeral : Double → String) : Nat → Entry → Prop
  | property {n : Nat} {p : Property} (hname : IsName p.name.toList)
    (hclass : sameName p.name "class" = false) (hvalue : p.value.Writable numeral n)
    (harray : p.isArray = true → ∃ items, p.value = .array items)
    (happends : p.appends = true → p.isArray = true) : Writable numeral n (.property p)
  | forward {n : Nat} {name : String} {base : Option String} {span : Span}
    (hname : IsName name.toList) (hbase : ∀ b ∈ base, IsName b.toList) :
    Writable numeral n (.nested ⟨name, base, [], true, span⟩)
  | nested {n : Nat} {name : String} {base : Option String} {es : List Entry} {span : Span}
    (hname : IsName name.toList) (hbase : ∀ b ∈ base, IsName b.toList)
    (h : ∀ e ∈ es, Writable numeral n e) :
    Writable numeral (n + 1) (.nested ⟨name, base, es, false, span⟩)

/-! ## The tokens of what is written -/

namespace Lexemes

/-- A symbol of a single character. -/
def symbol (c : Char) (kind : Kind) : Lexeme := ⟨kind, .ofList [c]⟩

def openCurly : Lexeme := symbol '\x7b' .openCurly

def closeCurly : Lexeme := symbol '\x7d' .closeCurly

def comma : Lexeme := symbol ',' .comma

def semicolon : Lexeme := symbol ';' .semicolon

def name (text : String) : Lexeme := ⟨.ofWord text, text⟩

def number : List Char → List Lexeme
  | '-' :: text => [symbol '-' .dash, ⟨.number, .ofList text⟩]
  | text => [⟨.number, .ofList text⟩]

section

variable (numeral : Double → String)

mutual

def value : Value → List Lexeme
  | .number x => number (numeral x).toList
  | .string s => [⟨.string, s⟩]
  | .word w => [name w]
  | .array items => openCurly :: (values items ++ [closeCurly])

def values : List Value → List Lexeme
  | [] => []
  | [v] => value v
  | v :: vs => value v ++ comma :: values vs

end

def sign (appends : Bool) : Lexeme := if appends then ⟨.plusEquals, "+="⟩ else ⟨.assignment, "="⟩

def brackets (isArray : Bool) : List Lexeme :=
  if isArray then [symbol '[' .openBracket, symbol ']' .closeBracket] else []

def parent : Option String → List Lexeme
  | none => []
  | some b => [symbol ':' .colon, name b]

def property (p : Property) : List Lexeme :=
  name p.name :: (brackets p.isArray ++ sign p.appends :: (value numeral p.value ++ [semicolon]))

mutual

def entry : Entry → List Lexeme
  | .property p => property numeral p
  | .nested c => nested c

def nested : Class → List Lexeme
  | ⟨text, base, entries, isForward, _⟩ => name "class" :: name text :: (parent base ++
    if isForward then [semicolon] else openCurly :: (lines entries ++ [closeCurly, semicolon]))

def lines : List Entry → List Lexeme
  | [] => []
  | e :: es => entry e ++ lines es

end

end

end Lexemes

/-! ## Scanning what is written -/

/-- What stands behind a value. -/
def endsValue (c : Char) : Bool := c == ';' || c == ',' || c == '\x7d'

/-- A value is followed by one of these. -/
theorem cases_of_endsValue {c : Char} (h : endsValue c = true) :
    c = ';' ∨ c = ',' ∨ c = '\x7d' := by
  simpa [endsValue, or_assoc] using h

section

variable {numeral : Double → String}

/-- A symbol that no other one starts with is scanned whatever follows. -/
theorem symbol_scans (c : Char) (kind : Kind) (h : (c, kind) ∈ closedSymbols) :
    Scans anything [c] [Lexemes.symbol c kind] :=
  Scans.symbol h

theorem openCurly_scans : Scans anything ['\x7b'] [Lexemes.openCurly] :=
  Scans.symbol (by decide)

theorem closeCurly_scans : Scans anything ['\x7d'] [Lexemes.closeCurly] :=
  Scans.symbol (by decide)

theorem comma_scans : Scans anything [','] [Lexemes.comma] :=
  Scans.symbol (by decide)

theorem semicolon_scans : Scans anything [';'] [Lexemes.semicolon] :=
  Scans.symbol (by decide)

/-- A blank in front of a text. -/
theorem scans_blank {mayFollow : Char → Bool} {b : Char} {text : List Char} {ls : List Lexeme}
    (hb : Text.isBlank b = true) (h : Scans mayFollow text ls) : Scans mayFollow (b :: text) ls :=
  (Scans.blank hb).before h

/-- A name is scanned if what follows cannot be a part of it. -/
theorem name_scans {text : String} (h : IsName text.toList) :
    Scans endsName text.toList [Lexemes.name text] := by
  have := Scans.name h
  rwa [String.ofList_toList] at this

/-- A number without a sign is one token. -/
theorem number_lexemes {text : List Char} (h : IsDecimal text) :
    Lexemes.number text = [⟨.number, .ofList text⟩] := by
  unfold Lexemes.number
  split
  · next rest =>
    obtain ⟨c, cs, htext, hc⟩ := h.exists_cons
    rcases (List.cons.inj htext).1 with rfl
    rcases hc with hc | hc <;> cases hc
  · rfl

/-- With a sign it is two. -/
theorem number_scans {text : List Char} {x : Double} (h : Spells text x) :
    Scans endsNumber text (Lexemes.number text) := by
  cases h with
  | plain h =>
    rw [number_lexemes h]
    exact Scans.number h
  | negated h => exact (symbol_scans '-' .dash (by decide)).before (Scans.number h)

/-- Items are scanned one by one, with commas between them. -/
theorem values_scan {items : List Value}
    (h : ∀ v ∈ items, Scans endsValue (Print.value numeral v) (Lexemes.value numeral v)) :
    Scans (· == '\x7d') (Print.values numeral items) (Lexemes.values numeral items) := by
  induction items with
  | nil => exact Scans.nil
  | cons v vs ih =>
    have hv := h v List.mem_cons_self
    have hvs := ih fun w hw => h w (List.mem_cons_of_mem _ hw)
    cases vs with
    | nil => exact hv.mono fun c hc => by rw [beq_iff_eq.1 hc]; rfl
    | cons w vs =>
      exact hv.append_cons (comma_scans.before (scans_blank (b := ' ') rfl hvs)) rfl

/-- A value is scanned to its tokens, if what follows ends one. -/
theorem value_scans {n : Nat} {v : Value} (h : v.Writable numeral n) :
    Scans endsValue (Print.value numeral v) (Lexemes.value numeral v) := by
  induction h with
  | number h =>
    refine (number_scans h).mono fun c hc => ?_
    rcases cases_of_endsValue hc with rfl | rfl | rfl <;> rfl
  | @string n s =>
    have hstring := Scans.string s.toList
    rw [String.ofList_toList] at hstring
    refine hstring.mono fun c hc => ?_
    rcases cases_of_endsValue hc with rfl | rfl | rfl <;> rfl
  | word h =>
    refine (name_scans h).mono fun c hc => ?_
    rcases cases_of_endsValue hc with rfl | rfl | rfl <;> rfl
  | array _ ih =>
    have hclosed := (values_scan ih).append_cons closeCurly_scans rfl
    exact (openCurly_scans.before hclosed).mono fun _ _ => rfl

/-- A sign is scanned if a blank follows. -/
theorem sign_scans (appends : Bool) :
    Scans (· == ' ') (Print.sign appends) [Lexemes.sign appends] := by
  cases appends with
  | true => exact Scans.plusEquals.mono fun _ _ => rfl
  | false => exact Scans.equals.mono fun c hc => by rw [beq_iff_eq.1 hc]; rfl

theorem brackets_scan (isArray : Bool) :
    Scans anything (Print.brackets isArray) (Lexemes.brackets isArray) := by
  cases isArray with
  | true =>
    exact (symbol_scans '[' .openBracket (by decide)).before
      (symbol_scans ']' .closeBracket (by decide))
  | false => exact Scans.nil

/-- A property is scanned to its tokens, whatever follows its semicolon. -/
theorem property_scans {n : Nat} {p : Property} (h : (Entry.property p).Writable numeral n) :
    Scans anything (Print.property numeral p) (Lexemes.property numeral p) := by
  cases h with
  | property hname _ hvalue _ _ =>
    have hend := (value_scans hvalue).append_cons semicolon_scans rfl
    have hsign := (sign_scans p.appends).append_cons (scans_blank (b := ' ') rfl hend) rfl
    have hbrackets := (brackets_scan p.isArray).before (scans_blank (b := ' ') rfl hsign)
    refine (name_scans hname).append hbrackets fun rest _ => ?_
    -- Behind the name there is a bracket or a blank.
    cases p.isArray <;> exact follows_cons.2 rfl

/-- So is the parent of a class, if what follows ends a name. -/
theorem parent_scans {base : Option String} (h : ∀ b ∈ base, IsName b.toList) :
    Scans endsName (Print.parent base) (Lexemes.parent base) := by
  cases base with
  | none => exact Scans.nil
  | some b =>
    have hcolon := (symbol_scans ':' .colon (by decide)).before
      (scans_blank (b := ' ') rfl (name_scans (h b rfl)))
    exact scans_blank rfl hcolon

/-- The head of a class, behind which there is a semicolon or a blank. -/
theorem head_scans {name : String} {base : Option String} {text : List Char} {ls : List Lexeme}
    (hname : IsName name.toList) (hbase : ∀ b ∈ base, IsName b.toList)
    (h : Scans anything text ls) (hends : ∀ rest, Follows endsName (text ++ rest)) :
    Scans anything ("class".toList ++ ' ' :: (name.toList ++ (Print.parent base ++ text)))
      (Lexemes.name "class" :: Lexemes.name name :: (Lexemes.parent base ++ ls)) := by
  have hparent := (parent_scans hbase).append h fun rest _ => hends rest
  have hrest := (name_scans hname).append hparent fun rest _ => by
    cases base with
    | none => exact hends rest
    | some b => exact follows_cons.2 rfl
  have hclass : IsName "class".toList := by decide
  exact (name_scans hclass).append_cons (scans_blank (b := ' ') rfl hrest) rfl

/-- Entries are scanned one by one. -/
theorem lines_scan {es : List Entry}
    (h : ∀ e ∈ es, Scans anything (Print.entry numeral e) (Lexemes.entry numeral e)) :
    Scans anything (Print.lines numeral es) (Lexemes.lines numeral es) := by
  induction es with
  | nil => exact Scans.nil
  | cons e es ih =>
    have hes := ih fun d hd => h d (List.mem_cons_of_mem _ hd)
    exact (h e List.mem_cons_self).before (scans_blank rfl hes)

/-- Every entry that can be written is scanned to its tokens. -/
theorem entry_scans {n : Nat} {e : Entry} (h : e.Writable numeral n) :
    Scans anything (Print.entry numeral e) (Lexemes.entry numeral e) := by
  induction h with
  | property hname hclass hvalue harray happends =>
    exact property_scans (.property hname hclass hvalue harray happends)
  | forward hname hbase =>
    exact head_scans hname hbase semicolon_scans fun rest => follows_cons.2 rfl
  | nested hname hbase _ ih =>
    have hclosed := (lines_scan ih).before (closeCurly_scans.before semicolon_scans)
    have hbraces := scans_blank (b := ' ') rfl (openCurly_scans.before hclosed)
    exact head_scans hname hbase hbraces fun rest => follows_cons.2 rfl

end

/-- What is written of entries is scanned to their tokens, and nothing is reported. -/
theorem scan_print {numeral : Double → String} {n : Nat} {es : List Entry}
    (h : ∀ e ∈ es, e.Writable numeral n) :
    ∃ ts finish, (scan (print numeral es)).tokens = ts ++ [.endAt finish] ∧
      ts.map Token.lexeme = Lexemes.lines numeral es ∧
      (scan (print numeral es)).diagnostics = [] := by
  obtain ⟨ts, htokens, hts, hdiagnostics⟩ :=
    (lines_scan fun e he => entry_scans (h e he)).scan_eq
  exact ⟨ts, _, htokens, hts, hdiagnostics⟩

end Sqf.Config
