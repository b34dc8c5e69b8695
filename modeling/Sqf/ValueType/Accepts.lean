import Sqf.ValueType

/-!
# Which values may be passed where

`expected.accepts supplied` says whether a value of the one type may stand
where the other is expected. Anything goes with `any` on either side. Where an
array with known elements is expected, the supplied elements are checked slot
by slot, and an array of unknown elements passes.
-/

namespace Sqf

/-- Each value passes the test at its position, and the last test holds for all values
from there on. -/
def passAll : List (ValueType → Bool) → List ValueType → Bool
  | _, [] => true
  | [], _ :: _ => false
  | [f], t :: ts => f t && passAll [f] ts
  | f :: g :: fs, t :: ts => f t && passAll (g :: fs) ts

namespace TypeSequence

/-- Whether `count` values fit the slots in number. -/
def takesCount (s : TypeSequence) (count : Nat) : Bool :=
  s.requiredCount ≤ count && (s.unbounded || count ≤ s.slots.length)

/-- Whether values fit the slots, `tests` being what each slot demands. -/
def takes (s : TypeSequence) (tests : List (ValueType → Bool)) (supplied : List ValueType) :
    Bool :=
  s.takesCount supplied.length && (s.slots.isEmpty || passAll tests supplied)

end TypeSequence

namespace ValueType

/-- The rule of acceptance, `tests` being what the slots of the expected type demand. -/
def acceptsBy (expected : ValueType) (tests : List (ValueType → Bool)) (supplied : ValueType) :
    Bool :=
  expected.isAny || supplied.isAny || expected.same supplied ||
    if expected.same array then supplied.isArray
    else if !expected.sequence.isArray then tests.head?.any (· supplied)
    else supplied.same array ||
      (supplied.sequence.isArray && expected.sequence.takes tests supplied.sequence.slots)

mutual

/-- Whether a value of the supplied type may be passed where the first one is expected. -/
def accepts : ValueType → ValueType → Bool
  | primitive p, supplied =>
    acceptsBy (primitive p) (List.replicate p.compoundLength (acceptsBy number [])) supplied
  | expanded s, supplied => acceptsBy (expanded s) (sequenceTests s) supplied

def sequenceTests : TypeSequence → List (ValueType → Bool)
  | ⟨slots, _, _⟩ => slotTests slots

/-- What each slot demands. -/
def slotTests : List ValueType → List (ValueType → Bool)
  | [] => []
  | t :: ts => accepts t :: slotTests ts

end

theorem slotTests_eq_map (ts : List ValueType) : slotTests ts = ts.map accepts := by
  induction ts with
  | nil => rfl
  | cons t ts ih => simp [slotTests, ih]

/-- What the slots of a type demand is what the slots accept, for compounds too. -/
theorem accepts_eq (expected supplied : ValueType) :
    expected.accepts supplied =
      acceptsBy expected (match expected with
        | primitive p => List.replicate p.compoundLength number.accepts
        | expanded s => s.slots.map accepts) supplied := by
  cases expected with
  | primitive p =>
    have h : number.accepts = acceptsBy number [] := by
      funext t; simp [accepts, Primitive.compoundLength]
    rw [accepts, ← h]
  | expanded s =>
    cases s with
    | mk slots unbounded optional => simp [accepts, sequenceTests, slotTests_eq_map]

end ValueType

end Sqf
