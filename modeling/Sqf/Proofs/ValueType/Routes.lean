import Sqf.Proofs.ValueType.Equality

/-!
# Ways of acceptance

A value may be accepted in several ways: as anything, as the same type, as any array, for the type
that a single slot stands for, as an array of unknown elements, or slot by slot (`accepts_iff`).
What has to be shown of accepted values is shown for each of them, by induction over the types that
the slots ask for (`demands_induction`).
-/

namespace Sqf

namespace ValueType

/-! ## What the slots ask for -/

/-- The types that the slots of an expected type ask for. -/
def demands : ValueType → List ValueType
  | primitive p => List.replicate p.compoundLength number
  | expanded s => s.slots

/-- What holds of a type if it holds of what its slots ask for, holds of all types. -/
theorem demands_induction {P : ValueType → Prop} (h : ∀ t, (∀ u ∈ t.demands, P u) → P t)
    (t : ValueType) : P t := by
  have hnumber : P number := h number (List.forall_mem_nil _)
  induction t using slots_induction with
  | primitive p =>
    refine h _ fun u hu => ?_
    rw [List.eq_of_mem_replicate hu]
    exact hnumber
  | expanded s ih => exact h _ ih

/-! ## The ways -/

/-- The ways in which `supplied` comes to be accepted for `expected`. -/
inductive Route (expected supplied : ValueType) : Prop
  | any (h : expected.isAny = true)
  | suppliedAny (h : supplied.isAny = true)
  | same (h : expected.same supplied = true)
  /-- Any array will do. -/
  | anyArray (h : expected.same array = true) (hsupplied : supplied.isArray = true)
  /-- The expected type stands for its only slot. -/
  | single {u : ValueType} (h : expected.same array = false)
      (hsingle : expected.sequence.isArray = false) (hu : expected.demands.head? = some u)
      (haccepts : u.accepts supplied = true)
  /-- Nothing is known of the elements supplied. -/
  | unknown (h : expected.same array = false) (harray : expected.sequence.isArray = true)
      (hsupplied : supplied.same array = true)
  | slots (h : expected.same array = false) (harray : expected.sequence.isArray = true)
      (hsupplied : supplied.sequence.isArray = true)
      (htakes : expected.sequence.takes (expected.demands.map accepts)
        supplied.sequence.slots = true)

theorem accepts_eq_demands (expected supplied : ValueType) :
    expected.accepts supplied = acceptsBy expected (expected.demands.map accepts) supplied := by
  rw [accepts_eq]
  cases expected with
  | primitive p => simp [demands]
  | expanded s => rfl

theorem accepts_iff {expected supplied : ValueType} :
    expected.accepts supplied = true ↔ Route expected supplied := by
  rw [accepts_eq_demands, acceptsBy]
  constructor
  · intro h
    simp only [Bool.or_eq_true] at h
    rcases h with ((h | h) | h) | h
    · exact .any h
    · exact .suppliedAny h
    · exact .same h
    · cases harray : expected.same array with
      | true => exact .anyArray harray (by simpa [harray] using h)
      | false =>
        cases hexpected : expected.sequence.isArray with
        | false =>
          have hslot : ∃ u, expected.demands.head? = some u ∧ u.accepts supplied = true := by
            simpa [harray, hexpected, Option.any_eq_true] using h
          obtain ⟨u, hu, haccepts⟩ := hslot
          exact .single harray hexpected hu haccepts
        | true =>
          have hslots : supplied.same array = true ∨ supplied.sequence.isArray = true ∧
              expected.sequence.takes (expected.demands.map accepts)
                supplied.sequence.slots = true := by
            simpa [harray, hexpected] using h
          rcases hslots with hunknown | ⟨hsupplied, htakes⟩
          · exact .unknown harray hexpected hunknown
          · exact .slots harray hexpected hsupplied htakes
  · intro h
    cases h with
    | any h => simp [h]
    | suppliedAny h => simp [h]
    | same h => simp [h]
    | anyArray h hsupplied => simp [h, hsupplied]
    | single h hsingle hu haccepts => simp [h, hsingle, hu, haccepts]
    | unknown h harray hsupplied => simp [h, harray, hsupplied]
    | slots h harray hsupplied htakes => simp [h, harray, hsupplied, htakes]

theorem accepts_any (t : ValueType) : t.accepts any = true :=
  accepts_iff.2 (.suppliedAny rfl)

/-- An array whose elements fit the slots is accepted. -/
theorem accepts_of_takes {expected : ValueType} {s : TypeSequence}
    (harray : expected.sequence.isArray = true) (hsupplied : s.isArray = true)
    (htakes : expected.sequence.takes (expected.demands.map accepts) s.slots = true) :
    expected.accepts (expanded s) = true := by
  cases h : expected.same array with
  | true => exact accepts_iff.2 (.anyArray h hsupplied)
  | false => exact accepts_iff.2 (.slots h harray hsupplied htakes)

end ValueType

end Sqf
