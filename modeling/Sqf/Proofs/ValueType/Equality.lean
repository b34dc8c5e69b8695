import Sqf.Proofs.ValueType.Slots

/-!
# The loose equality of types

Types are compared loosely: a sequence of one slot stands for that slot's primitive type, whether
it repeats or not, and a sequence without slots for the type of arrays. So the equality of types is
reflexive and symmetric, but it does not always carry over: a primitive type is the same as
sequences that differ, and does not see through two sequences of one slot. Where this happens at
some place of the types is the only obstacle (`same_laws`).
-/

namespace Sqf

namespace ValueType

/-! ## Induction over the slots -/

/-- What holds of the primitive types, and of a sequence if it holds of its slots, holds of all
types. -/
theorem slots_induction {P : ValueType → Prop} (primitive : ∀ p, P (.primitive p))
    (expanded : ∀ s, (∀ t ∈ s.slots, P t) → P (.expanded s)) : ∀ t, P t
  | .primitive p => primitive p
  | .expanded ⟨slots, unbounded, optional⟩ =>
    expanded ⟨slots, unbounded, optional⟩ fun t _ => slots_induction primitive expanded t
termination_by t => sizeOf t
decreasing_by
  have hslot : sizeOf t < sizeOf slots := List.sizeOf_lt_of_mem ‹_›
  simp
  omega

/-! ## The same sequences -/

/-- Two sequences are the same if their slots are, and both repeat or neither does. -/
theorem same_expanded_iff {s t : TypeSequence} :
    (expanded s).same (expanded t) = true ↔
      s.unbounded = t.unbounded ∧ sameSlots s.slots t.slots = true := by
  cases s
  cases t
  simp [same, sameSequence]

/-- Slots are compared place by place. -/
theorem sameSlots_iff_getElem? {ss ts : List ValueType} :
    sameSlots ss ts = true ↔ ss.length = ts.length ∧
      ∀ (i : Nat) s t, ss[i]? = some s → ts[i]? = some t → s.same t = true := by
  rw [sameSlots_iff, List.forall₂_iff_get]
  refine and_congr_right fun _ => ?_
  constructor
  · intro h i s t hs ht
    obtain ⟨hi, rfl⟩ := List.getElem?_eq_some_iff.1 hs
    obtain ⟨hi', rfl⟩ := List.getElem?_eq_some_iff.1 ht
    exact h i hi hi'
  · intro h i hi hi'
    exact h i _ _ (List.getElem?_eq_getElem hi) (List.getElem?_eq_getElem hi')

/-! ## Reflexive and symmetric -/

/-- Every type is the same as itself. -/
theorem same_self (t : ValueType) : t.same t = true := by
  induction t using slots_induction with
  | primitive p => simp [same]
  | expanded s ih =>
    rw [same_expanded_iff, sameSlots_iff]
    exact ⟨rfl, List.forall₂_same.2 ih⟩

/-- The order of two types that are compared does not matter. -/
theorem same_symm {s t : ValueType} (h : s.same t = true) : t.same s = true := by
  -- Induction on the slots. A primitive type is compared with a sequence in one way, whichever
  -- comes first.
  induction s using slots_induction generalizing t with
  | primitive p =>
    cases t with
    | primitive q =>
      obtain rfl : p = q := by simpa [same] using h
      exact h
    | expanded t => exact h
  | expanded s ih =>
    cases t with
    | primitive q => exact h
    | expanded t =>
      rw [same_expanded_iff, sameSlots_iff_getElem?] at h ⊢
      obtain ⟨hunbounded, hlength, hslots⟩ := h
      refine ⟨hunbounded.symm, hlength.symm, ?_⟩
      intro i b a hb ha
      exact ih a (List.mem_of_getElem? ha) (hslots i a b ha hb)

/-! ## Where it does not carry over -/

/-- The equality of types does not carry over from `a` and `b`, and from `b` and `c`, to `a` and
`c`: it does not at the types themselves, or not at slots with the same index. -/
inductive Breaks : ValueType → ValueType → ValueType → Prop
  /-- A primitive type sees neither whether a sequence repeats, nor whether a sequence has no slot
  or the type of arrays as its only one. -/
  | middle (p : Primitive) {r t : TypeSequence}
      (h : r.unbounded ≠ t.unbounded ∨ r.slots.length ≠ t.slots.length) :
      Breaks (.expanded r) (.primitive p) (.expanded t)
  /-- A primitive type does not see through a sequence of one slot that is a sequence again. -/
  | left (p : Primitive) (s : TypeSequence) {t u : TypeSequence} (h : t.slots = [.expanded u]) :
      Breaks (.primitive p) (.expanded s) (.expanded t)
  | right (p : Primitive) (s : TypeSequence) {r u : TypeSequence} (h : r.slots = [.expanded u]) :
      Breaks (.expanded r) (.expanded s) (.primitive p)
  | slot {r s t : TypeSequence} {i : Nat} {a b c : ValueType} (ha : r.slots[i]? = some a)
      (hb : s.slots[i]? = some b) (hc : t.slots[i]? = some c) (h : Breaks a b c) :
      Breaks (.expanded r) (.expanded s) (.expanded t)

end ValueType

namespace TypeSequence

/-- A sequence is the same as a primitive type if it has no slot or that one. -/
theorem isPrimitive_cases {s : TypeSequence} {p : Primitive} (h : s.isPrimitive p = true) :
    (s.slots = [] ∧ p = .array) ∨ s.slots = [.primitive p] := by
  by_cases hs : s.slots = []
  · refine .inl ⟨hs, ?_⟩
    simpa [isPrimitive, hs] using h
  · exact .inr ((isPrimitive_iff hs p).1 h)

/-- So it is the same as one primitive type at most. -/
theorem isPrimitive_unique {s : TypeSequence} {p q : Primitive} (hp : s.isPrimitive p = true)
    (hq : s.isPrimitive q = true) : p = q := by
  rcases isPrimitive_cases hp with ⟨hs, rfl⟩ | hs
  · rcases isPrimitive_cases hq with ⟨-, rfl⟩ | hs'
    · rfl
    · simp [hs] at hs'
  · rcases isPrimitive_cases hq with ⟨hs', -⟩ | hs'
    · simp [hs] at hs'
    · simpa [hs] using hs'

end TypeSequence

namespace ValueType

/-- Two sequences that are the same as a primitive type are the same if they repeat alike and have
equally many slots. -/
theorem same_iff_of_isPrimitive {p : Primitive} {r t : TypeSequence} (hr : r.isPrimitive p = true)
    (ht : t.isPrimitive p = true) : (expanded r).same (expanded t) = true ↔
      r.unbounded = t.unbounded ∧ r.slots.length = t.slots.length := by
  rw [same_expanded_iff, sameSlots_iff_getElem?]
  refine and_congr_right fun _ => and_iff_left_of_imp fun hlength => ?_
  have hslots : r.slots = t.slots := by
    rcases TypeSequence.isPrimitive_cases hr with ⟨hr, -⟩ | hr <;>
      rcases TypeSequence.isPrimitive_cases ht with ⟨ht, -⟩ | ht <;>
      simp_all
  intro i a c ha hc
  rw [hslots, hc] at ha
  obtain rfl := Option.some.inj ha
  exact same_self c

/-- A sequence that is the same as one that is the same as a primitive type, is so too, unless its
only slot is a sequence. -/
theorem isPrimitive_iff_of_same {p : Primitive} {s t : TypeSequence} (hs : s.isPrimitive p = true)
    (h : (expanded s).same (expanded t) = true) :
    t.isPrimitive p = true ↔ ¬ ∃ u, t.slots = [.expanded u] := by
  rw [same_expanded_iff, sameSlots_iff] at h
  rcases TypeSequence.isPrimitive_cases hs with ⟨hnil, rfl⟩ | hone
  · rw [hnil, List.forall₂_nil_left_iff] at h
    simp [TypeSequence.isPrimitive, h.2]
  · rw [hone] at h
    obtain ⟨c, _, hsame, hnil, ht⟩ := List.forall₂_cons_left_iff.1 h.2
    obtain rfl := List.forall₂_nil_left_iff.1 hnil
    rw [TypeSequence.isPrimitive_iff (by simp [ht]), ht]
    cases c with
    | primitive q =>
      obtain rfl : p = q := by simpa [same] using hsame
      simp
    | expanded u => simp

theorem breaks_middle_iff {p : Primitive} {r t : TypeSequence} :
    Breaks (expanded r) (primitive p) (expanded t) ↔
      ¬ (r.unbounded = t.unbounded ∧ r.slots.length = t.slots.length) := by
  rw [not_and_or]
  constructor
  · rintro ⟨⟩
    assumption
  · exact .middle p

theorem breaks_left_iff {p : Primitive} {s t : TypeSequence} :
    Breaks (primitive p) (expanded s) (expanded t) ↔ ∃ u, t.slots = [expanded u] := by
  constructor
  · rintro ⟨⟩
    exact ⟨_, ‹_›⟩
  · rintro ⟨u, hu⟩
    exact .left p s hu

theorem breaks_right_iff {p : Primitive} {r s : TypeSequence} :
    Breaks (expanded r) (expanded s) (primitive p) ↔ ∃ u, r.slots = [expanded u] := by
  constructor
  · rintro ⟨⟩
    exact ⟨_, ‹_›⟩
  · rintro ⟨u, hu⟩
    exact .right p s hu

/-- What breaks at the slots of three sequences breaks at some slots with one index. -/
theorem not_breaks_slots_iff {r s t : TypeSequence} :
    ¬ Breaks (expanded r) (expanded s) (expanded t) ↔
      ∀ (i : Nat) a b c, r.slots[i]? = some a → s.slots[i]? = some b → t.slots[i]? = some c →
        ¬ Breaks a b c := by
  constructor
  · intro h i a b c ha hb hc hbreaks
    exact h (.slot ha hb hc hbreaks)
  · rintro h ⟨⟩
    exact h _ _ _ _ ‹_› ‹_› ‹_› ‹_›

/-- The equality carries over just where it does not break. -/
theorem same_iff_not_breaks {a b c : ValueType} (hab : a.same b = true) (hbc : b.same c = true) :
    a.same c = true ↔ ¬ Breaks a b c := by
  induction a using slots_induction generalizing b c with
  | primitive p =>
    cases b with
    | primitive q =>
      -- Primitive types that are the same are identical, so nothing breaks.
      obtain rfl : p = q := by simpa [same] using hab
      refine iff_of_true hbc ?_
      rintro ⟨⟩
    | expanded s =>
      cases c with
      | primitive q =>
        obtain rfl := TypeSequence.isPrimitive_unique hab hbc
        refine iff_of_true (same_self _) ?_
        rintro ⟨⟩
      | expanded t =>
        rw [breaks_left_iff]
        exact isPrimitive_iff_of_same hab hbc
  | expanded r ih =>
    cases b with
    | primitive p =>
      cases c with
      | primitive q =>
        obtain rfl : p = q := by simpa [same] using hbc
        refine iff_of_true hab ?_
        rintro ⟨⟩
      | expanded t =>
        rw [breaks_middle_iff, not_not]
        exact same_iff_of_isPrimitive hab hbc
    | expanded s =>
      cases c with
      | primitive p =>
        rw [breaks_right_iff]
        exact isPrimitive_iff_of_same hbc (same_symm hab)
      | expanded t =>
        rw [same_expanded_iff, sameSlots_iff_getElem?] at hab hbc
        obtain ⟨hrs, hlength, hab⟩ := hab
        obtain ⟨hst, hlength', hbc⟩ := hbc
        rw [same_expanded_iff, sameSlots_iff_getElem?, not_breaks_slots_iff]
        constructor
        · rintro ⟨-, -, hac⟩ i a b c ha hb hc
          exact (ih a (List.mem_of_getElem? ha) (hab i a b ha hb) (hbc i b c hb hc)).1
            (hac i a c ha hc)
        · intro h
          refine ⟨hrs.trans hst, hlength.trans hlength', ?_⟩
          intro i a c ha hc
          obtain ⟨b, hb⟩ : ∃ b, s.slots[i]? = some b := by
            have hi := (List.getElem?_eq_some_iff.1 ha).1
            exact ⟨_, List.getElem?_eq_getElem (hlength ▸ hi)⟩
          exact (ih a (List.mem_of_getElem? ha) (hab i a b ha hb) (hbc i b c hb hc)).2
            (h i a b c ha hb hc)

/-- The equality of types is reflexive and symmetric, and it carries over unless a primitive type
comes between two sequences that differ, or does not see through a sequence of one slot, at the
types themselves or at slots with the same index at whatever depth. -/
theorem same_laws :
    (∀ t : ValueType, t.same t = true) ∧
      (∀ s t : ValueType, s.same t = true → t.same s = true) ∧
      ∀ a b c : ValueType, a.same b = true → b.same c = true →
        (a.same c = true ↔ ¬ Breaks a b c) :=
  ⟨same_self, fun _ _ => same_symm, fun _ _ _ => same_iff_not_breaks⟩

/-- An array with a number, and the same with sequences for both of them in the middle. -/
theorem same_laws_pair :
    let a := expanded ⟨[.array, .number], false, 0⟩
    let b := expanded ⟨[expanded .empty, expanded ⟨[.number], true, 0⟩], false, 1⟩
    a.same b = true ∧ b.same a = true ∧ a.same a = true ∧ ¬ Breaks a b a := by
  intro a b
  have hab : a.same b = true := by decide
  have hba : b.same a = true := same_laws.2.1 a b hab
  have haa : a.same a = true := same_laws.1 a
  exact ⟨hab, hba, haa, (same_laws.2.2 a b a hab hba).1 haa⟩

/-- Numbers are the same as one number in a sequence and as any number of numbers, but these two
are not the same. -/
theorem same_not_transitive :
    ¬ ∀ a b c : ValueType, a.same b = true → b.same c = true → a.same c = true := by
  intro h
  have hsame := h (expanded ⟨[.number], false, 0⟩) .number (expanded ⟨[.number], true, 0⟩)
    (by decide) (by decide)
  revert hsame
  decide

end ValueType

end Sqf
