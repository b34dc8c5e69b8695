import Mathlib.Data.List.Forall2
import Sqf.ValueType.Accepts

/-!
# Array literals and slots

An array literal with two elements or more is checked against an array type slot by slot: there
have to be as many elements as the slots ask for, and each has to be accepted by the slot at its
place, the last slot standing for all further ones (`accepts_ofElements`).

The rule of acceptance comes to this by way of exceptions, for `any`, for types that are the same
and for arrays of unknown elements. With one slot the type of arrays, repeated, the last exception
is taken for a type that it is not meant for, and elements that are no arrays pass
(`accepts_repeated_array`).
-/

namespace Sqf

/-! ## Tests by position -/

/-- Something holds of the values at all positions if it holds of the first one and of those
behind it. -/
theorem forall_getElem?_cons {P : Nat → ValueType → Prop} {t : ValueType} {ts : List ValueType} :
    (∀ i u, (t :: ts)[i]? = some u → P i u) ↔ P 0 t ∧ ∀ i u, ts[i]? = some u → P (i + 1) u := by
  constructor
  · intro h
    exact ⟨h 0 t rfl, fun i u hu => h (i + 1) u hu⟩
  · rintro ⟨hfirst, hothers⟩ i u hu
    cases i with
    | zero =>
      obtain rfl := Option.some.inj hu
      exact hfirst
    | succ i => exact hothers i u hu

/-- Each value passes the test at its position, or the last one. -/
theorem passAll_iff {fs : List (ValueType → Bool)} (hfs : fs ≠ []) (ts : List ValueType) :
    passAll fs ts = true ↔
      ∀ i t, ts[i]? = some t → ∃ f, fs[min i (fs.length - 1)]? = some f ∧ f t = true := by
  fun_induction passAll fs ts with
  | case1 fs => simp
  | case2 t ts => exact absurd rfl hfs
  | case3 f t ts ih =>
    -- The only test is the last one, so it stays for all values.
    rw [Bool.and_eq_true, ih hfs, forall_getElem?_cons]
    simp
  | case4 f g fs t ts ih =>
    have hshift : ∀ i, (f :: g :: fs)[min (i + 1) ((f :: g :: fs).length - 1)]? =
        (g :: fs)[min i ((g :: fs).length - 1)]? := by
      intro i
      simp [Nat.add_min_add_right]
    rw [Bool.and_eq_true, ih (by simp), forall_getElem?_cons]
    simp only [hshift]
    simp

/-! ## Types that are the same -/

namespace ValueType

/-- Slots are the same if they are one by one. -/
theorem sameSlots_iff {ss ts : List ValueType} :
    sameSlots ss ts = true ↔ List.Forall₂ (fun s t => s.same t = true) ss ts := by
  induction ss generalizing ts with
  | nil => cases ts <;> simp [sameSlots]
  | cons s ss ih => cases ts <;> simp [sameSlots, ih]

/-- What is the same is accepted. -/
theorem accepts_of_same {s t : ValueType} (h : s.same t = true) : s.accepts t = true := by
  rw [accepts_eq, acceptsBy, h]
  simp

theorem any_accepts (t : ValueType) : any.accepts t = true := by
  have hany : any.isAny = true := rfl
  rw [accepts_eq, acceptsBy, hany]
  simp

end ValueType

namespace TypeSequence

/-- A sequence with slots that is the same as a primitive type has this type as its only slot. -/
theorem isPrimitive_iff {s : TypeSequence} (hs : s.slots ≠ []) (p : Primitive) :
    s.isPrimitive p = true ↔ s.slots = [.primitive p] := by
  unfold isPrimitive
  split
  · next h => exact absurd h hs
  · next q h => simp [h]
  · next h =>
    constructor
    · intro hfalse
      cases hfalse
    · intro hp
      exact absurd hp (h p)

/-- Values fit the slots: in number, and each at its place. -/
theorem takes_iff {s : TypeSequence} (hs : s.slots ≠ []) (ts : List ValueType) :
    s.takes (s.slots.map ValueType.accepts) ts = true ↔
      s.requiredCount ≤ ts.length ∧ (s.unbounded = false → ts.length ≤ s.slots.length) ∧
        ∀ i t, ts[i]? = some t →
          ∃ u, s.slots[min i (s.slots.length - 1)]? = some u ∧ u.accepts t = true := by
  have htests : s.slots.map ValueType.accepts ≠ [] := by simpa using hs
  have hempty : s.slots.isEmpty = false := by simpa using hs
  rw [takes, takesCount, hempty, Bool.false_or, Bool.and_eq_true, passAll_iff htests]
  simp only [Bool.and_eq_true, decide_eq_true_eq, Bool.or_eq_true, List.length_map,
    List.getElem?_map, Option.map_eq_some_iff, and_assoc]
  -- The count is compared on both sides; then each value with the slot at its place.
  refine and_congr_right fun _ => and_congr ?_ ?_
  · cases s.unbounded <;> simp
  · constructor
    · intro h i t ht
      obtain ⟨_, ⟨u, hu, rfl⟩, hut⟩ := h i t ht
      exact ⟨u, hu, hut⟩
    · intro h i t ht
      obtain ⟨u, hu, hut⟩ := h i t ht
      exact ⟨_, ⟨u, hu, rfl⟩, hut⟩

/-- Whether a sequence is an array depends on its length and on whether it repeats. -/
theorem isArray_congr {s t : TypeSequence} (hunbounded : s.unbounded = t.unbounded)
    (hlength : s.slots.length = t.slots.length) : s.isArray = t.isArray := by
  have hempty : s.slots.isEmpty = t.slots.isEmpty := by
    rw [Bool.eq_iff_iff, List.isEmpty_iff_length_eq_zero, List.isEmpty_iff_length_eq_zero, hlength]
  simp only [isArray, isEmpty, hunbounded, hlength, hempty]

/-- No more values are required than there are slots. -/
theorem requiredCount_le (s : TypeSequence) : s.requiredCount ≤ s.slots.length := by
  unfold requiredCount
  dsimp only
  split <;> omega

/-- One slot that repeats takes any number of values if it takes them all. -/
theorem takes_repeated {s : TypeSequence} {u : ValueType} (hslots : s.slots = [u])
    (hunbounded : s.unbounded = true) {ts : List ValueType} (h : ∀ t ∈ ts, u.accepts t = true) :
    s.takes (s.slots.map ValueType.accepts) ts = true := by
  have hrequired : s.requiredCount = 0 := by simp [requiredCount, hunbounded, hslots]
  rw [takes_iff (by simp [hslots]), hrequired]
  refine ⟨Nat.zero_le _, by simp [hunbounded], ?_⟩
  intro i t ht
  exact ⟨u, by simp [hslots], h t (List.mem_of_getElem? ht)⟩

/-- Without repetition, values of the same types as the slots fit. -/
theorem takes_same {s : TypeSequence} (hs : s.slots ≠ []) {ts : List ValueType}
    (h : ValueType.sameSlots s.slots ts = true) :
    s.takes (s.slots.map ValueType.accepts) ts = true := by
  rw [ValueType.sameSlots_iff] at h
  have hlength := h.length_eq
  rw [takes_iff hs, ← hlength]
  refine ⟨s.requiredCount_le, fun _ => Nat.le_refl _, ?_⟩
  intro i t ht
  have hi : i < s.slots.length := by
    have hlt := (List.getElem?_eq_some_iff.1 ht).1
    omega
  have hat : min i (s.slots.length - 1) = i := by omega
  rw [hat]
  refine ⟨s.slots[i], List.getElem?_eq_getElem hi, ValueType.accepts_of_same ?_⟩
  obtain ⟨hi', rfl⟩ := List.getElem?_eq_some_iff.1 ht
  exact (List.forall₂_iff_get.1 h).2 i hi hi'

end TypeSequence

/-! ## Array literals -/

namespace ValueType

section

variable {s : TypeSequence} {ts : List ValueType}

theorem ofElements_of_two_le (hts : 2 ≤ ts.length) : ofElements ts = expanded ⟨ts, false, 0⟩ := by
  unfold ofElements
  split
  · simp at hts
  · simp at hts
  · rfl

/-- The exceptions to the rule of slots: a type that is the same as `any`, and one that is the
same as the literal's. -/
theorem accepts_ofElements_cases (hs : s.slots ≠ [])
    (hshape : 2 ≤ s.slots.length ∨ s.unbounded = true ∧ 1 ≤ s.slots.length)
    (harray : s.slots ≠ [.array]) (hts : 2 ≤ ts.length) :
    (expanded s).accepts (ofElements ts) = true ↔
      s.slots = [.any] ∨ (s.unbounded = false ∧ sameSlots s.slots ts = true) ∨
        s.takes (s.slots.map accepts) ts = true := by
  have hexpected : (expanded s).sequence.isArray = true := by
    show s.isArray = true
    simp only [TypeSequence.isArray, Bool.or_eq_true, decide_eq_true_eq]
    rcases hshape with hlength | ⟨hunbounded, -⟩
    · exact .inl (.inr hlength)
    · exact .inl (.inl hunbounded)
  have hsupplied : (expanded ⟨ts, false, 0⟩).sequence.isArray = true := by
    show TypeSequence.isArray ⟨ts, false, 0⟩ = true
    simp only [TypeSequence.isArray, Bool.or_eq_true, decide_eq_true_eq]
    exact .inl (.inr hts)
  -- With two elements the literal is no primitive type, so the exceptions for these do not apply.
  have hprimitive : ∀ p, (expanded ⟨ts, false, 0⟩).same (primitive p) = false := by
    intro p
    rw [Bool.eq_false_iff]
    intro hsame
    have hnil : ts ≠ [] := by
      rintro rfl
      simp at hts
    have hone : ts = [.primitive p] := (TypeSequence.isPrimitive_iff hnil p).1 hsame
    simp [hone] at hts
  have hgeneric : (expanded s).same array = false := by
    rw [Bool.eq_false_iff]
    intro hsame
    exact harray ((TypeSequence.isPrimitive_iff hs .array).1 hsame)
  have hany : (expanded s).isAny = true ↔ s.slots = [.any] := TypeSequence.isPrimitive_iff hs .any
  have hsame : (expanded s).same (expanded ⟨ts, false, 0⟩) = true ↔
      s.unbounded = false ∧ sameSlots s.slots ts = true := by
    cases s
    simp [same, sameSequence]
  have hsuppliedAny : (expanded ⟨ts, false, 0⟩).isAny = false := hprimitive .any
  rw [accepts_eq, ofElements_of_two_le hts, acceptsBy, hsuppliedAny, hgeneric, hexpected,
    hsupplied, hprimitive .array]
  simp [hany, hsame, sequence, or_assoc]

/-- An array literal with two elements or more is accepted just if the slots ask for no more
elements than it has, there are enough slots or the last one repeats, and each element is accepted
by the slot at its place. -/
theorem accepts_ofElements
    (hshape : 2 ≤ s.slots.length ∨ s.unbounded = true ∧ 1 ≤ s.slots.length)
    (harray : s.slots ≠ [.array]) (hts : 2 ≤ ts.length) :
    (expanded s).accepts (ofElements ts) = true ↔
      s.requiredCount ≤ ts.length ∧ (s.unbounded = false → ts.length ≤ s.slots.length) ∧
        ∀ i t, ts[i]? = some t →
          ∃ u, s.slots[min i (s.slots.length - 1)]? = some u ∧ u.accepts t = true := by
  have hs : s.slots ≠ [] := by
    intro hnil
    simp [hnil] at hshape
  rw [accepts_ofElements_cases hs hshape harray hts, ← TypeSequence.takes_iff hs]
  constructor
  · intro h
    rcases h with hany | ⟨-, hsame⟩ | htakes
    · -- One slot makes an array type only if it repeats.
      have hunbounded : s.unbounded = true := by
        rcases hshape with hlength | hunbounded
        · simp [hany] at hlength
        · exact hunbounded.1
      exact TypeSequence.takes_repeated hany hunbounded fun t _ => any_accepts t
    · exact TypeSequence.takes_same hs hsame
    · exact htakes
  · intro h
    exact .inr (.inr h)

/-- A string, then any number of pairs, of which the last slot may be left out. -/
theorem accepts_ofElements_pairs :
    let pair : ValueType := expanded ⟨[.number, .string], false, 0⟩
    let s : TypeSequence := ⟨[.string, pair], true, 1⟩
    let ts := [.string, ofElements [.number, .string], .array, pair]
    (2 ≤ s.slots.length ∨ s.unbounded = true ∧ 1 ≤ s.slots.length) ∧ s.slots ≠ [.array] ∧
      2 ≤ ts.length ∧ (expanded s).accepts (ofElements ts) = true := by
  intro pair s ts
  have hshape : 2 ≤ s.slots.length ∨ s.unbounded = true ∧ 1 ≤ s.slots.length := by decide
  have harray : s.slots ≠ [.array] := by simp [s]
  have hts : 2 ≤ ts.length := by decide
  refine ⟨hshape, harray, hts, (accepts_ofElements hshape harray hts).2 ⟨by decide, by decide, ?_⟩⟩
  intro i t ht
  -- The first element is for the first slot, and all others are for the second one.
  cases i with
  | zero =>
    obtain rfl := Option.some.inj ht
    exact ⟨.string, rfl, by decide⟩
  | succ i =>
    have hslot : s.slots[min (i + 1) (s.slots.length - 1)]? = some pair := by
      show s.slots[min (i + 1) 1]? = some pair
      rw [Nat.min_eq_right (by omega)]
      rfl
    have hpairs : ∀ t ∈ [ofElements [.number, .string], .array, pair], pair.accepts t = true := by
      decide
    exact ⟨pair, hslot, hpairs t (List.mem_of_getElem? ht)⟩

/-- The type of arrays as the only slot, repeated, is the same as the type of arrays. So the
elements of an array are not looked at, and numbers pass for arrays. -/
theorem accepts_repeated_array :
    ¬ ∀ (s : TypeSequence) (ts : List ValueType),
      (2 ≤ s.slots.length ∨ s.unbounded = true ∧ 1 ≤ s.slots.length) → 2 ≤ ts.length →
      ((expanded s).accepts (ofElements ts) = true ↔
        s.requiredCount ≤ ts.length ∧ (s.unbounded = false → ts.length ≤ s.slots.length) ∧
          ∀ i t, ts[i]? = some t →
            ∃ u, s.slots[min i (s.slots.length - 1)]? = some u ∧ u.accepts t = true) := by
  intro h
  have haccepts :
      (expanded ⟨[.array], true, 0⟩).accepts (ofElements [.number, .number]) = true := by
    decide
  obtain ⟨-, -, hslots⟩ :=
    (h ⟨[.array], true, 0⟩ [.number, .number] (by decide) (by decide)).1 haccepts
  obtain ⟨u, hu, hnumber⟩ := hslots 0 .number rfl
  obtain rfl := Option.some.inj hu
  revert hnumber
  decide

end

end ValueType

end Sqf
