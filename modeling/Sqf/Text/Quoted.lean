import Sqf.Text.Hex
import Sqf.Text.Printable

/-!
# Quoted text

Messages show pieces of a source text between double quotes. A quote and a
backslash are escaped by a backslash, four controls have a letter of their own,
and a character that does not show by itself is written as its code point in
hexadecimal.
-/

namespace Sqf.Text

/-- How a character is written between quotes. -/
def quoteChar (c : Char) : List Char :=
  match c with
  | '\x00' => ['\\', '0']
  | '\t' => ['\\', 't']
  | '\r' => ['\\', 'r']
  | '\n' => ['\\', 'n']
  | '"' => ['\\', '"']
  | '\\' => ['\\', '\\']
  | c =>
    if isExtender c || isUnprintable c then
      ['\\', 'u', '\x7b'] ++ hexDigits c.toNat ++ ['\x7d']
    else [c]

/-- The text between double quotes, with escapes. -/
def quoted (s : String) : String :=
  String.ofList ('"' :: (s.toList.flatMap quoteChar ++ ['"']))

/-- An accent that joins the letter before it is written as a code point. -/
example : quoted "e\u0301" = "\"e\\u\x7b301\x7d\"" := by decide +kernel

end Sqf.Text
