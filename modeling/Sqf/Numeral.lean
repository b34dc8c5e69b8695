import Sqf.Double
import Sqf.Text.Hex

/-!
# Numerals

How the text of a number is read. A hexadecimal numeral starts with `0x`, `0X`
or `$` and is a natural number below 2^64; any other text has to be a decimal
numeral with optional sign, fraction and exponent, or one of the words for
infinity and for no number.
-/

namespace Sqf.Numeral

/-- Reads hexadecimal digits after those with value `n`. -/
def hexFrom? (n : Nat) : List Char → Option Nat
  | [] => some n
  | c :: cs =>
    match Text.hexValue? c with
    | some d => hexFrom? (16 * n + d) cs
    | none => none

/-- A sign and the text after it; no sign counts as plus. -/
def splitSign : List Char → Bool × List Char
  | '-' :: cs => (true, cs)
  | '+' :: cs => (false, cs)
  | cs => (false, cs)

/-- A natural number below 2^64 in hexadecimal digits, of which there is at least one.
A plus sign may precede them. -/
def readHex? (cs : List Char) : Option Nat :=
  let digits := match cs with
    | '+' :: ds => ds
    | ds => ds
  match digits with
  | [] => none
  | ds =>
    match hexFrom? 0 ds with
    | some n => if n < UInt64.size then some n else none
    | none => none

/-- The value of a run of decimal digits that follows digits with value `n`. -/
def decimalFrom (n : Nat) (cs : List Char) : Nat :=
  cs.foldl (fun n c => 10 * n + (c.toNat - '0'.toNat)) n

/-- An exponent mark, an optional sign and at least one digit, or nothing at all. -/
def readExponent? : List Char → Option Int
  | [] => some 0
  | c :: cs =>
    if c = 'e' || c = 'E' then
      let (negative, digits) := splitSign cs
      if digits.isEmpty || !digits.all Char.isDigit then none
      else
        let n : Int := decimalFrom 0 digits
        some (if negative then -n else n)
    else none

/-- The parts of an unsigned decimal numeral: digits before the point, digits
after it, and what follows them. -/
def splitDecimal (cs : List Char) : List Char × List Char × List Char :=
  let whole := cs.takeWhile Char.isDigit
  match cs.dropWhile Char.isDigit with
  | '.' :: rest => (whole, rest.takeWhile Char.isDigit, rest.dropWhile Char.isDigit)
  | rest => (whole, [], rest)

/-- Digits with an optional point and exponent; one digit at least, on either side of the point. -/
def readMagnitude? (cs : List Char) : Option Double :=
  let (whole, fraction, rest) := splitDecimal cs
  if whole.isEmpty && fraction.isEmpty then none
  else (readExponent? rest).map fun e =>
    .ofDecimal (decimalFrom 0 (whole ++ fraction)) (e - fraction.length)

/-- The words that stand for infinity and for no number, in any case. -/
def readWord? (cs : List Char) : Option Double :=
  let word := cs.map Char.toLower
  if word = ['i', 'n', 'f'] || word = ['i', 'n', 'f', 'i', 'n', 'i', 't', 'y'] then some .infinity
  else if word = ['n', 'a', 'n'] then some .nan
  else none

/-- A decimal numeral or a word, with an optional sign. -/
def readDecimal? (cs : List Char) : Option Double :=
  let (negative, rest) := splitSign cs
  ((readMagnitude? rest).or (readWord? rest)).map fun x => if negative then x.neg else x

/-- The hexadecimal part of a numeral that starts with one of the three marks. -/
def hexPart? : List Char → Option (List Char)
  | '0' :: 'x' :: cs => some cs
  | '0' :: 'X' :: cs => some cs
  | '$' :: cs => some cs
  | _ => none

/-- The number a text stands for, if it is a numeral. -/
def read? (text : String) : Option Double :=
  match hexPart? text.toList with
  | some digits => (readHex? digits).map .ofNat
  | none => readDecimal? text.toList

end Sqf.Numeral
