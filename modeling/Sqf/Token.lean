import Sqf.Span

/-!
# Tokens

The words of a script or config file: numbers, strings, names, keywords and
symbols, each with its text and its place. The last token of a text is the end
of input.
-/

namespace Sqf

/-- What a token is. The keywords `and`, `or` and `not` are the same kinds as the
symbols `&&`, `||` and `!`. -/
inductive Kind where
  | endOfInput
  | number
  | string
  | identifier
  | openBracket
  | closeBracket
  | openCurly
  | closeCurly
  | openParen
  | closeParen
  | assignment
  | equals
  | not
  | notEquals
  | less
  | lessEquals
  | greater
  | greaterEquals
  | configPath
  | or
  | and
  | semicolon
  | colon
  | comma
  | plusEquals
  | plus
  | dash
  | slash
  | star
  | percent
  | caret
  | hash
  | ifWord
  | thenWord
  | elseWord
  | exitWithWord
  | whileWord
  | doWord
  | forWord
  | fromWord
  | toWord
  | stepWord
  | switchWord
  | caseWord
  | defaultWord
  | privateWord
deriving DecidableEq, Inhabited, Repr

namespace Kind

/-- The keywords with their spelling in lower case. -/
def keywords : List (String × Kind) := [
  ("if", ifWord), ("then", thenWord), ("else", elseWord), ("exitwith", exitWithWord),
  ("while", whileWord), ("do", doWord), ("for", forWord), ("from", fromWord), ("to", toWord),
  ("step", stepWord), ("switch", switchWord), ("case", caseWord), ("default", defaultWord),
  ("private", privateWord), ("and", and), ("or", or), ("not", not)]

/-- The kind of a name: a keyword in any case of letters, else an identifier. -/
def ofWord (word : String) : Kind := (keywords.lookup word.toLower).getD identifier

/-- The kinds that some keyword has. -/
def isKeyword (k : Kind) : Bool := keywords.any fun entry => entry.2 == k

/-- The openers `(`, `[` and `{`. -/
def opensGroup : Kind → Bool
  | openParen | openBracket | openCurly => true
  | _ => false

/-- The closers `)`, `]` and `}`. -/
def closesGroup : Kind → Bool
  | closeParen | closeBracket | closeCurly => true
  | _ => false

/-- The symbols that end a statement. -/
def isSeparator : Kind → Bool
  | semicolon | comma => true
  | _ => false

end Kind

/-- A token: its kind, its text (for a string, what it stands for) and its place. -/
structure Token where
  kind : Kind
  value : String
  span : Span
deriving DecidableEq, Inhabited, Repr

namespace Token

/-- The value of the token that ends every text. -/
def endValue : String := "EOF"

/-- The end of input at an offset. -/
def endAt (offset : Nat) : Token := ⟨.endOfInput, endValue, .point offset⟩

/-- How a message names the token. -/
def display (t : Token) : String :=
  match t.kind with
  | .endOfInput => "end of input"
  | .string => "\"" ++ t.value ++ "\""
  | _ => t.value

/-- The text in lower case, by which commands and keywords are looked up. -/
def normalized (t : Token) : String := t.value.toLower

/-- Names of config entries may be spelled like keywords. -/
def isName (t : Token) : Bool := t.kind == .identifier || t.kind.isKeyword

end Token

/-- The names of locals start with an underscore. -/
def isLocalName (name : String) : Bool := name.toList.head? == some '_'

/-- Two names are the same when they differ in the case of ASCII letters only. -/
def sameName (a b : String) : Bool := a.toLower == b.toLower

end Sqf
