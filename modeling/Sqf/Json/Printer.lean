import Sqf.Json
import Sqf.Text.Hex

/-!
# Printing JSON

A value is printed on one line, or spread over lines with two spaces per level.
Strings escape the quote, the backslash and the controls, and nothing else.
-/

namespace Sqf.Json

/-- How a character is written within a string. -/
def escapeChar (c : Char) : List Char :=
  match c with
  | '"' => ['\\', '"']
  | '\\' => ['\\', '\\']
  | '\x08' => ['\\', 'b']
  | '\x0c' => ['\\', 'f']
  | '\n' => ['\\', 'n']
  | '\r' => ['\\', 'r']
  | '\t' => ['\\', 't']
  | c =>
    if c.toNat < 0x20 then
      ['\\', 'u', '0', '0', Text.hexDigit (c.toNat / 16), Text.hexDigit (c.toNat % 16)]
    else [c]

/-- A string with its quotes. -/
def printText (s : String) : String :=
  .ofList ('"' :: (s.toList.flatMap escapeChar ++ ['"']))

mutual

/-- The value on one line, without blanks. -/
def compact : Json → String
  | null => "null"
  | bool true => "true"
  | bool false => "false"
  | number literal => literal
  | text value => printText (value.getD "")
  | array items => "[" ++ String.intercalate "," (compactItems items) ++ "]"
  | object members => "\x7b" ++ String.intercalate "," (compactMembers members) ++ "\x7d"

def compactItems : List Json → List String
  | [] => []
  | item :: items => item.compact :: compactItems items

def compactMembers : List (Option String × Json) → List String
  | [] => []
  | (key, value) :: members =>
    (printText (key.getD "") ++ ":" ++ value.compact) :: compactMembers members

end

/-- The start of a line at a level of nesting. -/
def newLine (level : Nat) : String := .ofList ('\n' :: List.replicate (2 * level) ' ')

/-- Parts between two brackets, each on lines of its own. -/
def spread (level : Nat) (opening closing : String) (parts : List String) : String :=
  if parts.isEmpty then opening ++ closing
  else
    opening ++ newLine (level + 1) ++ String.intercalate ("," ++ newLine (level + 1)) parts ++
      newLine level ++ closing

mutual

/-- The value over several lines, its first line standing at a level of nesting. -/
def prettyAt (level : Nat) : Json → String
  | array items => spread level "[" "]" (prettyItems (level + 1) items)
  | object members => spread level "\x7b" "\x7d" (prettyMembers (level + 1) members)
  | value => value.compact

def prettyItems (level : Nat) : List Json → List String
  | [] => []
  | item :: items => item.prettyAt level :: prettyItems level items

def prettyMembers (level : Nat) : List (Option String × Json) → List String
  | [] => []
  | (key, value) :: members =>
    (printText (key.getD "") ++ ": " ++ value.prettyAt level) :: prettyMembers level members

end

/-- The value over several lines. -/
def pretty (value : Json) : String := value.prettyAt 0

end Sqf.Json
