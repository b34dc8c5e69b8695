import Sqf.Numeral

/-!
# The range of numbers in JSON

A number that is kept becomes a double, and has to be within the range of
doubles. It is computed as a product: its leading digits, as many as 64 bits
hold, times a power of ten, both rounded before they are multiplied. Next to
the largest double this refuses some numbers that would round to it, and lets
pass some that would not.
-/

namespace Sqf.Json

/-- A number without its sign: leading digits, and the power of ten they stand with. -/
structure Magnitude where
  digits : Nat
  exponent : Int
deriving DecidableEq, Repr

namespace Magnitude

/-- The digits with one more behind them, if 64 bits hold the result. -/
def push? (digits : Nat) (c : Char) : Option Nat :=
  let pushed := 10 * digits + (c.toNat - '0'.toNat)
  if pushed < UInt64.size then some pushed else none

/-- Takes digits before the point. With the first that does not fit all others are left out;
the second result counts those. -/
def takeWhole (digits : Nat) : List Char → Nat × Nat
  | [] => (digits, 0)
  | c :: cs =>
    match push? digits c with
    | some digits => takeWhole digits cs
    | none => (digits, cs.length + 1)

/-- Takes digits behind the point up to the first that does not fit; the second result counts
those that are taken. -/
def takeFraction (digits : Nat) : List Char → Nat × Nat
  | [] => (digits, 0)
  | c :: cs =>
    match push? digits c with
    | some digits =>
      let (digits, taken) := takeFraction digits cs
      (digits, taken + 1)
    | none => (digits, 0)

/-- The magnitude of a number literal. -/
def ofLiteral? (literal : String) : Option Magnitude :=
  let (whole, fraction, rest) := Numeral.splitDecimal (Numeral.splitSign literal.toList).2
  let (digits, skipped) := takeWhole 0 whole
  let (digits, taken) := takeFraction digits fraction
  (Numeral.readExponent? rest).map fun e => ⟨digits, e + skipped - taken⟩

/-- Whether the number is within the range of doubles. No power of ten beyond the 308th is. -/
def isInRange (m : Magnitude) : Bool :=
  m.digits == 0 || m.exponent < 0 ||
    (m.exponent ≤ 308 && Double.isProductFinite m.digits (Nat.pow 10 m.exponent.toNat))

end Magnitude

/-- Whether a number literal is within the range of doubles. -/
def isLiteralInRange (literal : String) : Bool :=
  (Magnitude.ofLiteral? literal).any Magnitude.isInRange

/-- Rounded twice, this number is beyond the largest double, to which it is nearest. -/
example : isLiteralInRange "17976931348623158e292" = false := by
  decide +kernel

/-- Rounded twice, this number is within the range, although it is nearer to the next power
of two than to the largest double. -/
example : isLiteralInRange "179769313486231599e291" = true := by
  decide +kernel

end Sqf.Json
