import Sqf.Config
import Sqf.Numeral
import Sqf.Parse.Repeat
import Sqf.Text.Blank
import Sqf.Text.Bytes
import Sqf.Token.Scan

/-!
# Reading a config file

Entries are read one after the other. One that cannot be read is reported and
left out, and reading goes on behind its semicolon or at the brace that closes
its class. Classes and arrays may be nested to a limit; a brace beyond it makes
its entry unreadable.
-/

namespace Sqf.Config

open Parse (state kind advance skip report reportUnexpected failUnexpected expect commaList many)

/-- The kinds behind the end of a word. -/
def endsWord : Kind → Bool
  | .semicolon | .comma | .closeCurly | .endOfInput => true
  | _ => false

/-- A number, whose sign has been read. -/
def number (negative : Bool) : Attempt Value := do
  let t ← expect .number "a number"
  match Numeral.read? t.value with
  | some x => return .number (if negative then x.neg else x)
  | none => throw ⟨.malformedNumber t.value, t.span⟩

/-- Text without quotes up to the end of the value, as it stands in the source. -/
def word (source : List Char) : Parse Value := do
  let before ← state
  skip (before.rest.takeWhile fun t => !endsWord t.kind).length
  let after ← state
  let text := (Text.slice? before.token.span.start after.lastEnd source).getD []
  return .word (.ofList (Text.trim text))

/-- A value, where `array` reads one that starts with a brace. -/
def valueWith (source : List Char) (array : Attempt Value) : Attempt Value := do
  match ← (kind : Parse Kind) with
  | .string =>
    let t ← (advance : Parse Token)
    return .string t.value
  | .number => number false
  | .dash =>
    let _ ← (advance : Parse Token)
    number true
  | .openCurly => array
  | k => if endsWord k then failUnexpected "a value" else (word source : Parse Value)

/-- Fails because the brace that comes next would nest too deeply. -/
def tooDeep : Attempt α := do
  let s ← (state : Parse Parse.State)
  throw ⟨.nestingTooDeep Parse.maxNesting, s.token.span⟩

/-- An array in braces that may have `n` levels. -/
def array (source : List Char) : Nat → Attempt Value
  | 0 => tooDeep
  | n + 1 => do
    let _ ← (advance : Parse Token)
    let items ← commaList .closeCurly "`,` or `\x7d`" (valueWith source (array source n))
    let _ ← (advance : Parse Token)
    return .array items

/-- Reads the semicolon behind an entry. Its absence is reported at the end of the entry. -/
def terminator (stop : Nat) : Parse Unit := do
  let s ← state
  if s.kind = .semicolon then
    let _ ← advance
  else report ⟨.missingSeparator s.token.value, .point stop⟩

/-- A name; keywords of scripts are names as well. -/
def name (expectation : String) : Attempt Token := do
  if (← (state : Parse Parse.State)).token.isName then (advance : Parse Token)
  else failUnexpected expectation

/-- The brackets behind the name of an array property. -/
def brackets : Attempt Bool := do
  if (← (kind : Parse Kind)) = .openBracket then
    let _ ← (advance : Parse Token)
    let _ ← expect .closeBracket "`]`"
    return true
  else return false

/-- The sign between name and value. Only an array can be added to. -/
def assignment (isArray : Bool) : Attempt Bool := do
  let k ← (kind : Parse Kind)
  if k = .assignment || (k = .plusEquals && isArray) then
    let _ ← (advance : Parse Token)
    return k == .plusEquals
  else failUnexpected "`=`"

/-- A property whose value is read by `value`. -/
def property (value : Attempt Value) : Attempt Property := do
  let name ← (advance : Parse Token)
  let isArray ← brackets
  let appends ← assignment isArray
  if isArray && (← (kind : Parse Kind)) ≠ .openCurly then failUnexpected "`\x7b`"
  let v ← value
  let span ← (Parse.spanFrom name.span : Parse Span)
  (terminator span.stop : Parse Unit)
  return ⟨name.value, v, isArray, appends, span⟩

/-- The base class behind a colon. -/
def parent : Attempt (Option String) := do
  if (← (kind : Parse Kind)) = .colon then
    let _ ← (advance : Parse Token)
    let t ← name "a base class name"
    return some t.value
  else return none

/-- The brace that closes a class, with its semicolon. It gives the place where the class
ends, which is the end of input if the brace is missing. -/
def closing : Parse Span := do
  let s ← state
  if s.kind = .closeCurly then
    let t ← advance
    terminator t.span.stop
    return t.span
  else
    reportUnexpected "`\x7d`"
    return s.token.span

/-- A class whose entries behind the opening brace are read by `body`. -/
def classWith (body : Attempt (List Entry)) : Attempt Class := do
  let start ← (advance : Parse Token)
  let name ← name "a class name"
  let parent ← parent
  match ← (kind : Parse Kind) with
  | .semicolon =>
    let stop ← (advance : Parse Token)
    return ⟨name.value, parent, [], true, start.span.join stop.span⟩
  | .openCurly =>
    let entries ← body
    let close ← (closing : Parse Span)
    return ⟨name.value, parent, entries, false, start.span.join close⟩
  | _ => failUnexpected "`\x7b` or `;`"

/-- Number of tokens to the end of an entry: through a semicolon outside of braces, or up to
the brace that closes the class. `depth` counts the braces that are open. -/
def entryLength (depth : Nat) : List Token → Nat
  | [] => 0
  | t :: ts =>
    match t.kind with
    | .endOfInput => 0
    | .semicolon => if depth = 0 then 1 else entryLength depth ts + 1
    | .closeCurly => if depth = 0 then 0 else entryLength (depth - 1) ts + 1
    | .openCurly => entryLength (depth + 1) ts + 1
    | _ => entryLength depth ts + 1

/-- Number of braces that are open behind these tokens. A closer without an opener counts
for nothing. -/
def openBraces (ts : List Token) : Nat :=
  ts.foldl (fun n t =>
    match t.kind with
    | .openCurly => n + 1
    | .closeCurly => n - 1
    | _ => n) 0

/-- Passes over the rest of an entry that was begun in the state `start`, and over one token
at least. -/
def synchronize (start : Parse.State) : Parse Unit := do
  let s ← state
  skip (entryLength (openBraces (s.readSince start)) s.rest)
  let after ← state
  if after.rest.length = start.rest.length then
    let _ ← advance

/-- An entry, `body` reading the entries of a class and `value` the value of a property. -/
def entry (body : Attempt (List Entry)) (value : Attempt Value) : Attempt Entry := do
  let t := (← (state : Parse Parse.State)).token
  if !t.isName then failUnexpected "`class` or a property"
  else if sameName t.value "class" then
    let c ← classWith body
    return .nested c
  else
    let p ← property value
    return .property p

/-- One turn of the loop over entries, which ends at a closing brace or the end of input. A
stray semicolon and an entry that cannot be read make turns without an entry. -/
def turn (body : Attempt (List Entry)) (value : Attempt Value) :
    Parse (Option (Option Entry)) := do
  match ← kind with
  | .endOfInput | .closeCurly => return none
  | .semicolon =>
    let _ ← advance
    return some none
  | _ =>
    let start ← state
    match ← (entry body value).run with
    | .ok e => return some (some e)
    | .error d =>
      report d
      synchronize start
      return some none

/-- Entries up to a closing brace or the end of input. -/
def entriesWith (body : Attempt (List Entry)) (value : Attempt Value) : Parse (List Entry) := do
  let found ← many (turn body value)
  return found.filterMap id

/-- The entries of a class behind its opening brace, which is the next token. The class may
have `n` levels. -/
def body (source : List Char) : Nat → Attempt (List Entry)
  | 0 => tooDeep
  | n + 1 => do
    let _ ← (advance : Parse Token)
    (entriesWith (body source n) (valueWith source (array source n)) : Parse (List Entry))

/-- The entries of a file, or those that follow a stray brace. -/
def topEntries (source : List Char) : Parse (List Entry) :=
  entriesWith (body source Parse.maxNesting) (valueWith source (array source Parse.maxNesting))

/-- A closing brace outside of any class, which is reported, and the entries behind it. -/
def strayTurn (source : List Char) : Parse (Option (List Entry)) := do
  if (← kind) = .endOfInput then return none
  reportUnexpected "`class` or a property"
  let _ ← advance
  let entries ← topEntries source
  return some entries

/-- The entries of a whole file. -/
def allEntries (source : List Char) : Parse (List Entry) := do
  let entries ← topEntries source
  let others ← many (strayTurn source)
  return entries ++ others.flatten

/-- A config file that has been read, and what was wrong with it. -/
structure Parsed where
  entries : List Entry
  diagnostics : List Diagnostic

/-- Scans and reads a config file. Diagnostics are in the order of their places, those of the
scanner before those of the parser at the same place. -/
def parse (source : String) : Parsed :=
  let scanned := scan source
  let step := allEntries source.toList (.initial scanned.tokens)
  ⟨step.value,
    Diagnostic.sortByStart (scanned.diagnostics ++ step.next.diagnostics.toList)⟩

end Sqf.Config
