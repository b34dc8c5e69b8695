import Sqf.Diagnostic
import Sqf.Text.Blank
import Sqf.Text.Line

/-!
# Showing a diagnostic

A diagnostic is shown as its message, its tip, the name of the file, the line
of the source it starts in, and a row of carets below the text it concerns. The
line is shown without its indentation, and the carets move to the left with it.
Columns count characters, not bytes.
-/

namespace Sqf.Diagnostic

/-- The text set flush right in a field of `size` characters. -/
def alignRight (size : Nat) (text : String) : String :=
  String.ofList (List.replicate (size - text.length) ' ') ++ text

/-- The line without the spaces and tabs it starts with, and their number. -/
def removeIndent (line : List Char) : List Char × Nat :=
  let isIndent := fun c : Char => c == ' ' || c == '\t'
  (line.dropWhile isIndent, (line.takeWhile isIndent).length)

/-- Number of characters before the byte `offset` of a line. An offset inside of a
character counts as it is. -/
def columnOf (line : List Char) (offset : Nat) : Nat :=
  match Text.slice? 0 offset line with
  | some front => front.length
  | none => offset

/-- Number of characters of a span. One that does not stand between characters of the
source has its number of bytes. -/
def markedLength (source : List Char) (span : Span) : Nat :=
  match Text.slice? span.start span.stop source with
  | some text => text.length
  | none => span.length

/-- The last line of what is shown: carets below the span, at least one. -/
def caretLine (padding column indent marked : Nat) : String :=
  let carets := String.ofList (List.replicate (max marked 1) '^')
  let stop := (column - indent) + max marked 1
  alignRight padding "|" ++ " " ++ alignRight stop carets

/-- The diagnostic with its source line and a caret marker. -/
def render (d : Diagnostic) (file source : String) : String :=
  let place := Text.placeOf source.toList d.span.start
  let number := toString place.number
  let padding := number.length + 2
  let (line, indent) := removeIndent place.text
  let tip := match d.cause.tip? with
    | some tip => alignRight padding "=" ++ " " ++ tip ++ "\n"
    | none => ""
  d.severity.name ++ ": " ++ d.message ++ " (" ++ d.cause.name ++ ")\n" ++
    tip ++
    "-> " ++ file ++ "\n" ++
    alignRight padding "|" ++ "\n" ++
    number ++ " | " ++ String.ofList (Text.trimRight line) ++ "\n" ++
    caretLine padding (columnOf place.text place.offset) indent
      (markedLength source.toList d.span)

/-- The diagnostic on one line, with the offset and length of its span. -/
def display (d : Diagnostic) (file : String) : String :=
  file ++ ":" ++ toString d.span.start ++ ":" ++ toString d.span.length ++ ": " ++
    d.severity.name ++ ": " ++ d.message

end Sqf.Diagnostic
