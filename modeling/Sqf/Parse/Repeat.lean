import Sqf.Parse.State

/-!
# Loops over tokens

Two loops are all that scripts and config files need: turns one after the
other, and items with commas between them. Both end because no parser gives
back what it has read.
-/

namespace Sqf.Parse

/-- Turns until one has no value. A turn that reads no token would repeat itself, so it is
the last, and the state says that the loop was cut off there. -/
def many (turn : Parse (Option α)) : Parse (List α) := fun s =>
  let first := turn s
  match first.value with
  | none => ⟨[], first.next, first.suffix⟩
  | some a =>
    if _h : first.next.rest.length < s.rest.length then
      let others := many turn first.next
      ⟨a :: others.value, others.next, others.suffix.trans first.suffix⟩
    else ⟨[a], { first.next with stalled := true }, first.suffix⟩
termination_by s => s.rest.length

/-- Items up to a closer, which is not read, with commas between them. A comma may stand
behind the last one. -/
def commaList (closer : Kind) (expectation : String) (item : Attempt α) : Attempt (List α) :=
  fun s =>
  if s.kind = closer then ⟨.ok [], s, List.suffix_refl _⟩
  else
    let first := item.run s
    match first.value with
    | .error d => ⟨.error d, first.next, first.suffix⟩
    | .ok a =>
      match h : first.next.rest with
      | [] => ⟨.error (first.next.unexpected expectation), first.next, first.suffix⟩
      | t :: ts =>
        if t.kind = .comma then
          let others := commaList closer expectation item
            { first.next with rest := ts, lastEnd := t.span.stop }
          ⟨others.value.map (a :: ·), others.next,
            others.suffix.trans ((h ▸ List.suffix_cons t ts).trans first.suffix)⟩
        else if t.kind = closer then ⟨.ok [a], first.next, first.suffix⟩
        else ⟨.error (first.next.unexpected expectation), first.next, first.suffix⟩
termination_by s => s.rest.length
decreasing_by
  have hle := first.suffix.length_le
  rw [h] at hle
  exact Nat.lt_of_succ_le hle

end Sqf.Parse
