import Sqf.Text.Bytes

/-!
# Lines

Where a byte offset stands: in which line, and how far into it. A line keeps
the newline that ends it. An offset past the end counts as the end, and the end
of a text that is empty or closed by a newline is the start of one more line.
-/

namespace Sqf.Text

/-- The line an offset falls into. -/
structure Place where
  /-- Line number, from 1. -/
  number : Nat
  /-- The line, with its newline if it has one. -/
  text : List Char
  /-- Bytes between the start of the line and the offset. -/
  offset : Nat
deriving DecidableEq, Repr

/-- The text cut after each newline; no line is empty. -/
def lines : List Char → List (List Char)
  | [] => []
  | c :: cs =>
    if c = '\n' then [c] :: lines cs
    else match lines cs with
      | [] => [[c]]
      | l :: ls => (c :: l) :: ls

/-- Finds the line for `offset` among lines of which the first is numbered `number`. -/
def placeIn (number : Nat) : List (List Char) → Nat → Place
  | [], _ => ⟨number, [], 0⟩
  | [l], offset =>
    if offset < width l then ⟨number, l, offset⟩
    else if l.getLast? = some '\n' then ⟨number + 1, [], 0⟩
    else ⟨number, l, width l⟩
  | l :: ls, offset =>
    if offset < width l then ⟨number, l, offset⟩ else placeIn (number + 1) ls (offset - width l)

/-- The line that holds the byte at `offset`. -/
def placeOf (source : List Char) (offset : Nat) : Place := placeIn 1 (lines source) offset

end Sqf.Text
