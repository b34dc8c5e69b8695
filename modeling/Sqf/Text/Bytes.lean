/-!
# Byte offsets in a text

Offsets count the bytes of the UTF-8 form, while texts are read character by
character. This module measures characters in bytes and cuts a text at byte
offsets, which is possible only between two characters.
-/

namespace Sqf.Text

/-- Number of bytes of the UTF-8 form. -/
def width : List Char → Nat
  | [] => 0
  | c :: cs => c.utf8Size + width cs

@[simp] theorem width_nil : width [] = 0 := rfl

@[simp] theorem width_cons (c : Char) (cs : List Char) :
    width (c :: cs) = c.utf8Size + width cs := rfl

theorem width_append (cs ds : List Char) : width (cs ++ ds) = width cs + width ds := by
  induction cs with
  | nil => simp
  | cons c cs ih => simp [ih, Nat.add_assoc]

/-- Only the empty text has no bytes. -/
theorem width_eq_zero_iff {cs : List Char} : width cs = 0 ↔ cs = [] := by
  cases cs with
  | nil => simp
  | cons c cs =>
    have h : 0 < c.utf8Size := c.utf8Size_pos
    simp only [width_cons]
    constructor
    · intro h'; omega
    · intro h'; cases h'

/-- The text cut after its first `n` bytes, if a character ends there. -/
def splitAt? : Nat → List Char → Option (List Char × List Char)
  | 0, cs => some ([], cs)
  | _ + 1, [] => none
  | n + 1, c :: cs =>
    if c.utf8Size ≤ n + 1 then
      (splitAt? (n + 1 - c.utf8Size) cs).map fun (front, back) => (c :: front, back)
    else none

/-- The text between two byte offsets, if both stand between characters. -/
def slice? (start stop : Nat) (cs : List Char) : Option (List Char) :=
  if start ≤ stop then do
    let (_, back) ← splitAt? start cs
    let (front, _) ← splitAt? (stop - start) back
    return front
  else none

/-- Cutting loses nothing, and the first part has the asked number of bytes. -/
theorem splitAt?_eq_some {n : Nat} {cs front back : List Char}
    (h : splitAt? n cs = some (front, back)) : cs = front ++ back ∧ width front = n := by
  induction cs generalizing n front with
  | nil =>
    cases n with
    | zero => simp_all [splitAt?]
    | succ n => simp [splitAt?] at h
  | cons c cs ih =>
    cases n with
    | zero =>
      simp only [splitAt?, Option.some.injEq, Prod.mk.injEq] at h
      obtain ⟨rfl, rfl⟩ := h
      simp
    | succ n =>
      simp only [splitAt?] at h
      split at h
      · rename_i hc
        obtain ⟨⟨f, b⟩, hfb, he⟩ := Option.map_eq_some_iff.1 h
        simp only [Prod.mk.injEq] at he
        obtain ⟨rfl, rfl⟩ := he
        obtain ⟨rfl, hw⟩ := ih hfb
        exact ⟨rfl, by simp only [width_cons]; omega⟩
      · cases h

/-- Every place between two characters can be cut at. -/
theorem splitAt?_width (front back : List Char) :
    splitAt? (width front) (front ++ back) = some (front, back) := by
  induction front with
  | nil => simp [splitAt?]
  | cons c cs ih =>
    have h : 0 < c.utf8Size := c.utf8Size_pos
    obtain ⟨n, hn⟩ : ∃ n, width (c :: cs) = n + 1 := ⟨width (c :: cs) - 1, by simp; omega⟩
    rw [hn, List.cons_append, splitAt?]
    have hc : c.utf8Size ≤ n + 1 := by rw [← hn]; simp
    have hr : n + 1 - c.utf8Size = width cs := by rw [← hn]; simp
    simp [hc, hr, ih]

end Sqf.Text
