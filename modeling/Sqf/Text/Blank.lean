/-!
# Blanks

The characters with the Unicode property `White_Space`: what separates tokens
and what trimming removes.
-/

namespace Sqf.Text

/-- The character has the property `White_Space`. -/
def isBlank (c : Char) : Bool :=
  let n := c.toNat
  (9 ≤ n && n ≤ 13) || n == 0x20 || n == 0x85 || n == 0xA0 || n == 0x1680 ||
    (0x2000 ≤ n && n ≤ 0x200A) || n == 0x2028 || n == 0x2029 || n == 0x202F ||
    n == 0x205F || n == 0x3000

/-- The text without the blanks at its end. -/
def trimRight : List Char → List Char
  | [] => []
  | c :: cs =>
    match trimRight cs with
    | [] => if isBlank c then [] else [c]
    | d :: ds => c :: d :: ds

/-- The text without the blanks at either end. -/
def trim (cs : List Char) : List Char := trimRight (cs.dropWhile isBlank)

theorem isBlank_space : isBlank ' ' = true := by decide

end Sqf.Text
