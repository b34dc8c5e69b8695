import Sqf.Text.Blank
import Sqf.Text.Hex
import Sqf.Token

/-!
# Pieces of a source text

A source text falls into pieces without gaps: blanks, comments, preprocessor
directives, tokens, and single characters that start nothing. `Piece.first`
says which piece comes first and how many characters it takes, and `pieces`
cuts the whole text. Nothing is lost: `flatten_pieces` puts the text together
again.

A `#` is a directive only as the first character of its line that is not a
space or tab, with a letter behind it. Whether the line is still blank is
therefore carried along.
-/

namespace Sqf

/-- What a piece of text is. -/
inductive Form where
  | blank
  | lineComment
  /-- A comment that ends with its closing mark. -/
  | blockComment
  /-- A comment that runs to the end of the text. -/
  | openComment
  | directive
  /-- A token whose value is the text itself. -/
  | plain (kind : Kind)
  /-- A string with both quotes, and what it stands for. -/
  | string (value : List Char)
  /-- A string without its closing quote. -/
  | openString (value : List Char)
  /-- A character that starts no token. -/
  | unrecognised
deriving DecidableEq, Repr

/-- A stretch of source text and what it is. -/
structure Piece where
  form : Form
  text : List Char
deriving DecidableEq, Repr

namespace Piece

/-- Letters and the underscore, with which a name starts. -/
def isNameStart (c : Char) : Bool := c.isAlpha || c == '_'

/-- The characters of a name. -/
def isNamePart (c : Char) : Bool := c.isAlphanum || c == '_'

/-- Length of the longest run of characters with `p` at the front. -/
def run (p : Char → Bool) (cs : List Char) : Nat := (cs.takeWhile p).length

/-- Length of a block comment whose opening mark has been read: the number of
characters up to and including the closing mark, if there is one. -/
def commentLength? : List Char → Option Nat
  | [] => none
  | [_] => none
  | c :: d :: cs =>
    if c = '*' && d = '/' then some 2 else (commentLength? (d :: cs)).map (· + 1)

/-- A line whose last character, blanks aside, is a backslash goes on in the next one. -/
def continues (line : List Char) : Bool := (Text.trimRight line).getLast? == some '\\'

/-- Length of a directive that starts at the front: its line with the newline, and each
further line that the one before continues to. `line` holds the characters of the current
line, last one first. -/
def directiveLength (line : List Char) : List Char → Nat
  | [] => 0
  | c :: cs =>
    if c = '\n' then
      if continues line.reverse && !cs.isEmpty then directiveLength [] cs + 1 else 1
    else directiveLength (c :: line) cs + 1

/-- What a string stands for and the number of characters it takes, its opening quote
being read: a doubled quote stands for one, a single one ends the string. The flag tells
whether that quote was found. -/
def stringBody (quote : Char) : List Char → List Char × Nat × Bool
  | [] => ([], 0, false)
  | c :: cs =>
    if c = quote then
      match cs with
      | d :: ds =>
        if d = quote then
          let (value, n, closed) := stringBody quote ds
          (quote :: value, n + 2, closed)
        else ([], 1, true)
      | [] => ([], 1, true)
    else
      let (value, n, closed) := stringBody quote cs
      (c :: value, n + 1, closed)

/-- Length of an exponent, or 0: a mark, an optional sign and at least one digit. -/
def exponentLength : List Char → Nat
  | c :: cs =>
    if c = 'e' || c = 'E' then
      match cs with
      | d :: ds =>
        if d = '+' || d = '-' then
          if run Char.isDigit ds = 0 then 0 else run Char.isDigit ds + 2
        else if run Char.isDigit cs = 0 then 0 else run Char.isDigit cs + 1
      | [] => 0
    else 0
  | [] => 0

/-- Length of a point with at least one digit behind it, or 0. -/
def fractionLength : List Char → Nat
  | '.' :: cs => if run Char.isDigit cs = 0 then 0 else run Char.isDigit cs + 1
  | _ => 0

/-- Length of a decimal numeral at the front, or 0. -/
def decimalLength (cs : List Char) : Nat :=
  let whole := run Char.isDigit cs
  let fraction := fractionLength (cs.drop whole)
  if whole + fraction = 0 then 0
  else whole + fraction + exponentLength (cs.drop (whole + fraction))

/-- Length of a hexadecimal numeral at the front, or 0. -/
def hexLength : List Char → Nat
  | '0' :: x :: cs =>
    if (x = 'x' || x = 'X') && run Text.isHexDigit cs ≠ 0 then run Text.isHexDigit cs + 2 else 0
  | '$' :: cs => if run Text.isHexDigit cs = 0 then 0 else run Text.isHexDigit cs + 1
  | _ => 0

/-- The symbol at the front and the number of characters it takes after its first. A
longer symbol goes before one that it starts with. -/
def symbol? (c : Char) (rest : List Char) : Option (Kind × Nat) :=
  match c, rest with
  | '[', _ => some (.openBracket, 0)
  | ']', _ => some (.closeBracket, 0)
  | '{', _ => some (.openCurly, 0)
  | '}', _ => some (.closeCurly, 0)
  | '(', _ => some (.openParen, 0)
  | ')', _ => some (.closeParen, 0)
  | '=', '=' :: _ => some (.equals, 1)
  | '=', _ => some (.assignment, 0)
  | '!', '=' :: _ => some (.notEquals, 1)
  | '!', _ => some (.not, 0)
  | '<', '=' :: _ => some (.lessEquals, 1)
  | '<', _ => some (.less, 0)
  | '>', '>' :: _ => some (.configPath, 1)
  | '>', '=' :: _ => some (.greaterEquals, 1)
  | '>', _ => some (.greater, 0)
  | '|', '|' :: _ => some (.or, 1)
  | '&', '&' :: _ => some (.and, 1)
  | ';', _ => some (.semicolon, 0)
  | ':', _ => some (.colon, 0)
  | ',', _ => some (.comma, 0)
  | '+', '=' :: _ => some (.plusEquals, 1)
  | '+', _ => some (.plus, 0)
  | '-', _ => some (.dash, 0)
  | '/', _ => some (.slash, 0)
  | '*', _ => some (.star, 0)
  | '%', _ => some (.percent, 0)
  | '^', _ => some (.caret, 0)
  | _, _ => none

/-- A number, a name, a string or a symbol: what remains when blanks, comments and
directives are ruled out. -/
def firstToken (c : Char) (rest : List Char) : Form × Nat :=
  let hex := hexLength (c :: rest)
  let number := if hex = 0 then decimalLength (c :: rest) else hex
  if number ≠ 0 then (.plain .number, number - 1)
  else if isNameStart c then
    let n := run isNamePart rest
    (.plain (.ofWord (.ofList (c :: rest.take n))), n)
  else if c = '"' || c = '\'' then
    match stringBody c rest with
    | (value, n, true) => (.string value, n)
    | (value, n, false) => (.openString value, n)
  else match symbol? c rest with
    | some (kind, n) => (.plain kind, n)
    | none => (.unrecognised, 0)

/-- The form of the piece that starts with `c`, and how many characters of `rest` belong
to it. `fresh` tells that only spaces and tabs precede `c` on its line. -/
def first (fresh : Bool) (c : Char) (rest : List Char) : Form × Nat :=
  if Text.isBlank c then (.blank, run Text.isBlank rest)
  else if c = '/' && rest.head? = some '/' then (.lineComment, run (· ≠ '\n') rest)
  else if c = '/' && rest.head? = some '*' then
    match commentLength? rest.tail with
    | some n => (.blockComment, n + 1)
    | none => (.openComment, rest.length)
  else if c = '#' then
    if fresh && (rest.head?.any Char.isAlpha) then (.directive, directiveLength [c] rest)
    else (.plain .hash, 0)
  else firstToken c rest

/-- Whether a line is still blank after `text`, when it was so before as `fresh` tells. -/
def staysFresh (fresh : Bool) (text : List Char) : Bool :=
  text.foldl (fun fresh c => c == '\n' || (fresh && (c == ' ' || c == '\t'))) fresh

/-- The pieces of a text, in order. -/
def cut (fresh : Bool) : List Char → List Piece
  | [] => []
  | c :: rest =>
    let (form, n) := first fresh c rest
    let text := c :: rest.take n
    ⟨form, text⟩ :: cut (staysFresh fresh text) (rest.drop n)
termination_by cs => cs.length
decreasing_by simp only [List.length_cons, List.length_drop]; omega

end Piece

/-- The pieces of a whole source text. -/
def pieces (source : List Char) : List Piece := Piece.cut true source

/-- No character of the text is lost, added or moved. -/
theorem Piece.flatten_cut (fresh : Bool) (cs : List Char) :
    ((cut fresh cs).map Piece.text).flatten = cs := by
  fun_induction cut fresh cs with
  | case1 => rfl
  | case2 fresh c rest form n h text ih => simp [text, ih]

theorem flatten_pieces (source : List Char) :
    ((pieces source).map Piece.text).flatten = source :=
  Piece.flatten_cut true source

/-- Every piece holds at least one character. -/
theorem Piece.text_ne_nil {fresh : Bool} {cs : List Char} {p : Piece}
    (h : p ∈ cut fresh cs) : p.text ≠ [] := by
  fun_induction cut fresh cs with
  | case1 => simp at h
  | case2 fresh c rest form n h' text ih =>
    rcases List.mem_cons.1 h with rfl | h
    · simp [text]
    · exact ih h

end Sqf
