/-!
# Durations in words

A duration is written in the largest of the units second, millisecond,
microsecond and nanosecond that it fills at least once, with as many decimals
as it needs and no trailing zeros.
-/

namespace Sqf.Text

/-- A length of time in nanoseconds. -/
structure Duration where
  nanos : Nat
deriving DecidableEq, Repr

/-- The `count` decimal places of a fraction `n / 10 ^ count`, trailing zeros left out. -/
def decimals : Nat → Nat → List Char
  | 0, _ => []
  | count + 1, n =>
    match n / Nat.pow 10 count, decimals count (n % Nat.pow 10 count) with
    | 0, [] => []
    | d, rest => Nat.digitChar d :: rest

namespace Duration

/-- A whole number of seconds. -/
def ofSeconds (n : Nat) : Duration := ⟨n * 1000000000⟩

/-- Nanoseconds counted in a unit of `10 ^ places` nanoseconds. -/
def inUnit (nanos places : Nat) (unit : String) : String :=
  let fraction := match decimals places (nanos % Nat.pow 10 places) with
    | [] => []
    | ds => '.' :: ds
  toString (nanos / Nat.pow 10 places) ++ String.ofList fraction ++ unit

/-- The duration in the largest unit that it fills. -/
def text (d : Duration) : String :=
  if d.nanos ≥ 1000000000 then inUnit d.nanos 9 "s"
  else if d.nanos ≥ 1000000 then inUnit d.nanos 6 "ms"
  else if d.nanos ≥ 1000 then inUnit d.nanos 3 "µs"
  else inUnit d.nanos 0 "ns"

end Duration

end Sqf.Text
