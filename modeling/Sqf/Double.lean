/-!
# Double precision numbers

A number of a script is a binary floating point number of 64 bits. It is kept
as its bits, and written numerals are turned into it exactly: a ratio of
natural numbers goes to the nearest double, a tie to the one with an even last
bit.
-/

namespace Sqf

/-- A double, given by its sign bit, exponent field and fraction field. -/
structure Double where
  bits : UInt64
deriving DecidableEq, Inhabited, Repr

namespace Double

def zero : Double := ⟨0⟩

def infinity : Double := ⟨0x7FF0000000000000⟩

/-- The quiet number that is none. -/
def nan : Double := ⟨0x7FF8000000000000⟩

/-- The number with the other sign. -/
def neg (x : Double) : Double := ⟨x.bits ^^^ 0x8000000000000000⟩

/-- Whether all exponent bits are set and some fraction bit is. -/
def isNaN (x : Double) : Bool := (x.bits &&& 0x7FFFFFFFFFFFFFFF) > 0x7FF0000000000000

/-- Neither infinite nor `nan`. -/
def isFinite (x : Double) : Bool := (x.bits &&& 0x7FFFFFFFFFFFFFFF) < 0x7FF0000000000000

/-- The natural number nearest to `num / den`; a half goes to the even neighbour. -/
def roundRatio (num den : Nat) : Nat :=
  let q := num / den
  let twice := 2 * (num % den)
  if twice > den || (twice == den && q % 2 == 1) then q + 1 else q

/-- The nearest double to `num / den`, for a positive `den`.

The exponent `e` is chosen so that `num / (den * 2 ^ e)` has 53 binary digits,
or fewer where the range of exponents ends. The bits of the rounded quotient,
added to the exponent field, carry into the next binade by themselves. -/
def ofRatio (num den : Nat) : Double :=
  if num = 0 then zero else
  let guess : Int := (num.log2 : Int) - den.log2 - 52
  let small := if guess ≥ 0 then num < den <<< (guess.toNat + 52)
    else num <<< (-guess).toNat < den <<< 52
  let e : Int := max (if small then guess - 1 else guess) (-1074)
  let q := if e ≥ 0 then roundRatio num (den <<< e.toNat)
    else roundRatio (num <<< (-e).toNat) den
  let bits := (e + 1074).toNat <<< 52 + q
  if bits ≥ 0x7FF0000000000000 then infinity else ⟨UInt64.ofNat bits⟩

/-- The nearest double to a natural number. -/
def ofNat (n : Nat) : Double := ofRatio n 1

/-- The natural number nearest to `n` that has at most 53 binary digits before its trailing
zeros: what `n` becomes as a double, if the range of doubles were unbounded. -/
def roundNat (n : Nat) : Nat :=
  let shift := n.log2 - 52
  roundRatio n (1 <<< shift) <<< shift

/-- Whether the product of two natural numbers, each of them rounded first, is within the
range of doubles. -/
def isProductFinite (a b : Nat) : Bool := (ofNat (roundNat a * roundNat b)).isFinite

/-- The nearest double to `digits * 10 ^ exponent`.

Outside of the decades 10^-330 to 10^310 the result is zero or infinity
whatever the digits are, so no large power is formed there. -/
def ofDecimal (digits : Nat) (exponent : Int) : Double :=
  if digits = 0 then zero else
  let decade : Int := exponent + (Nat.toDigits 10 digits).length
  if decade > 310 then infinity
  else if decade < -330 then zero
  else if exponent ≥ 0 then ofNat (digits * Nat.pow 10 exponent.toNat)
  else ofRatio digits (Nat.pow 10 (-exponent).toNat)

end Double

end Sqf
