import Sqf.Proofs.ValueType.Routes

/-!
# Optional counts

The number of optional slots of a sequence matters only by the number of values that the sequence
requires. So a type accepts what it did before if the count of one of its sequences is raised, be
it the type itself or a sequence at whatever depth, and from the number of slots on all counts are
alike (`accepts_optional`).
-/

namespace Sqf

namespace TypeSequence

/-- The second sequence is the first one with the optional count set to one that is no lower. -/
def Raised (s t : TypeSequence) : Prop := ∃ n : Int, s.optional ≤ n ∧ s.setOptional n = .ok t

/-- The second sequence is the first one with the optional count set anew, and both counts are no
lower than the number of slots. -/
def Saturated (s t : TypeSequence) : Prop :=
  s.slots.length ≤ s.optional ∧ ∃ n : Int, s.slots.length ≤ n ∧ s.setOptional n = .ok t

/-- The second sequence has the same slots, and requires no more values than the first one. -/
structure Relaxed (s t : TypeSequence) : Prop where
  slots : t.slots = s.slots
  unbounded : t.unbounded = s.unbounded
  requiredCount : t.requiredCount ≤ s.requiredCount

variable {s t : TypeSequence}

/-- The count can be set to any number that is not negative. -/
theorem setOptional_eq_ok_iff {n : Int} :
    s.setOptional n = .ok t ↔ 0 ≤ n ∧ t = { s with optional := n.toNat } := by
  cases n with
  | ofNat k => simp [setOptional, eq_comm]
  | negSucc k => simp [setOptional]

/-- The more slots are optional, the fewer values are required. -/
theorem requiredCount_anti {n : Nat} (h : s.optional ≤ n) :
    requiredCount { s with optional := n } ≤ s.requiredCount := by
  simp only [requiredCount]
  split <;> omega

/-- A count that is raised requires no more values than before. -/
theorem Raised.relaxed (h : Raised s t) : Relaxed s t := by
  obtain ⟨n, hn, hset⟩ := h
  obtain ⟨hpos, rfl⟩ := setOptional_eq_ok_iff.1 hset
  exact ⟨rfl, rfl, requiredCount_anti (by omega)⟩

/-- With as many optional slots as there are, no value is required. -/
theorem requiredCount_eq_zero (h : s.slots.length ≤ s.optional) : s.requiredCount = 0 := by
  simp only [requiredCount]
  split <;> omega

/-- What is saturated requires nothing. -/
theorem Saturated.requiredCount_eq (h : Saturated s t) :
    s.requiredCount = 0 ∧ t.requiredCount = 0 := by
  obtain ⟨hs, n, hn, hset⟩ := h
  obtain ⟨hpos, rfl⟩ := setOptional_eq_ok_iff.1 hset
  have ht : s.slots.length ≤ n.toNat := by omega
  exact ⟨requiredCount_eq_zero hs, requiredCount_eq_zero ht⟩

/-- From there on the counts require the same. -/
theorem Saturated.relaxed (h : Saturated s t) : Relaxed s t ∧ Relaxed t s := by
  obtain ⟨hs, ht⟩ := h.requiredCount_eq
  obtain ⟨-, n, -, hset⟩ := h
  obtain ⟨-, rfl⟩ := setOptional_eq_ok_iff.1 hset
  exact ⟨⟨rfl, rfl, by omega⟩, ⟨rfl, rfl, by omega⟩⟩

end TypeSequence

namespace ValueType

open TypeSequence (Raised Saturated Relaxed)

/-- The second type is the first one with one sequence in it changed as `R` says, be it the type
itself or a sequence at whatever depth. -/
inductive Changed (R : TypeSequence → TypeSequence → Prop) : ValueType → ValueType → Prop
  | here {s t : TypeSequence} (h : R s t) : Changed R (.expanded s) (.expanded t)
  | slot {s : TypeSequence} {i : Nat} {u v : ValueType} (hu : s.slots[i]? = some u)
      (h : Changed R u v) : Changed R (.expanded s) (.expanded { s with slots := s.slots.set i v })

/-- The second type accepts all that the first one does. -/
def Widens (u v : ValueType) : Prop := ∀ supplied, u.accepts supplied = true →
  v.accepts supplied = true

theorem Changed.imp {R R' : TypeSequence → TypeSequence → Prop} (hR : ∀ s t, R s t → R' s t)
    {a b : ValueType} (h : Changed R a b) : Changed R' a b := by
  induction h with
  | here h => exact .here (hR _ _ h)
  | slot hu _ ih => exact .slot hu ih

/-! ## Types that are the same -/

section Same

variable {s t : TypeSequence}

/-- The comparison of types does not look at counts. -/
theorem same_relaxed (h : Relaxed s t) (x : ValueType) :
    (expanded t).same x = (expanded s).same x := by
  cases x with
  | primitive p =>
    show t.isPrimitive p = s.isPrimitive p
    unfold TypeSequence.isPrimitive
    rw [h.slots]
  | expanded r =>
    rw [Bool.eq_iff_iff, same_expanded_iff, same_expanded_iff, h.slots, h.unbounded]

/-- With a sequence among its slots a sequence is the same as no primitive type. -/
theorem isPrimitive_of_slot {i : Nat} {r : TypeSequence} (h : s.slots[i]? = some (expanded r))
    (p : Primitive) : s.isPrimitive p = false := by
  rw [Bool.eq_false_iff]
  intro hp
  rcases TypeSequence.isPrimitive_cases hp with ⟨hnil, -⟩ | hone
  · rw [hnil] at h
    cases h
  · have hmem := List.mem_of_getElem? h
    rw [hone, List.mem_singleton] at hmem
    cases hmem

theorem Changed.exists_expanded {R : TypeSequence → TypeSequence → Prop} {a b : ValueType}
    (h : Changed R a b) : ∃ s t, a = expanded s ∧ b = expanded t := by
  cases h with
  | here _ => exact ⟨_, _, rfl, rfl⟩
  | slot _ _ => exact ⟨_, _, rfl, rfl⟩

/-- The equality of types does not look at optional counts. -/
theorem same_changed {a b : ValueType} (h : Changed Relaxed a b) (x : ValueType) :
    b.same x = a.same x := by
  induction h generalizing x with
  | here h => exact same_relaxed h x
  | @slot s i u v hu h ih =>
    have hv : (s.slots.set i v)[i]? = some v :=
      List.getElem?_set_self (List.getElem?_eq_some_iff.1 hu).1
    cases x with
    | primitive p =>
      obtain ⟨r, r', rfl, rfl⟩ := h.exists_expanded
      show TypeSequence.isPrimitive _ p = s.isPrimitive p
      rw [isPrimitive_of_slot hu p, isPrimitive_of_slot hv p]
    | expanded r =>
      rw [Bool.eq_iff_iff, same_expanded_iff, same_expanded_iff, sameSlots_iff_getElem?,
        sameSlots_iff_getElem?]
      dsimp only
      rw [List.length_set]
      refine and_congr_right fun _ => and_congr_right fun _ => ?_
      -- Only the slots with the index `i` differ.
      constructor
      · intro hsame j u' y hu' hy
        by_cases hj : i = j
        · subst hj
          rw [hu] at hu'
          cases hu'
          rw [← ih y]
          exact hsame i v y hv hy
        · refine hsame j u' y ?_ hy
          rw [List.getElem?_set_ne hj, hu']
      · intro hsame j v' y hv' hy
        by_cases hj : i = j
        · subst hj
          rw [hv] at hv'
          cases hv'
          rw [ih y]
          exact hsame i u y hu hy
        · rw [List.getElem?_set_ne hj] at hv'
          exact hsame j v' y hv' hy

end Same

/-! ## Acceptance -/

/-- The second sequence is the same as what the first one is the same as, requires no more values,
and its slots accept what those of the first one do. -/
structure Loosened (s t : TypeSequence) : Prop where
  unbounded : t.unbounded = s.unbounded
  requiredCount : t.requiredCount ≤ s.requiredCount
  same : ∀ x, (expanded t).same x = (expanded s).same x
  length : t.slots.length = s.slots.length
  slots : ∀ (i : Nat) u, s.slots[i]? = some u → ∃ v, t.slots[i]? = some v ∧ Widens u v

section Loosened

variable {s t : TypeSequence} (h : Loosened s t)

include h

/-- A sequence that is loosened takes all lists of values that it took. -/
theorem Loosened.takes {ts : List ValueType} (htakes : s.takes (s.slots.map accepts) ts = true) :
    t.takes (t.slots.map accepts) ts = true := by
  -- Without slots only the number of values is asked.
  by_cases hs : s.slots = []
  · have ht : t.slots = [] := by
      rw [← List.length_eq_zero_iff, h.length, hs]
      rfl
    have hrequired := h.requiredCount
    simp only [TypeSequence.takes, TypeSequence.takesCount, hs, ht, h.unbounded,
      List.isEmpty_nil, Bool.true_or, Bool.and_true, Bool.and_eq_true, decide_eq_true_eq]
      at htakes ⊢
    exact ⟨Nat.le_trans hrequired htakes.1, htakes.2⟩
  · have ht : t.slots ≠ [] := by
      rw [← List.length_pos_iff, h.length]
      exact List.length_pos_iff.2 hs
    rw [TypeSequence.takes_iff hs] at htakes
    obtain ⟨hrequired, hcount, hslots⟩ := htakes
    rw [TypeSequence.takes_iff ht, h.length, h.unbounded]
    refine ⟨Nat.le_trans h.requiredCount hrequired, hcount, ?_⟩
    intro i x hx
    obtain ⟨u, hu, haccepts⟩ := hslots i x hx
    obtain ⟨v, hv, hwidens⟩ := h.slots _ u hu
    exact ⟨v, hv, hwidens x haccepts⟩

/-- Whatever way a value is accepted in, it still is. -/
theorem Loosened.widens : Widens (expanded s) (expanded t) := by
  intro supplied haccepts
  have harray : t.isArray = s.isArray := TypeSequence.isArray_congr h.unbounded h.length
  -- One case for each rule by which a type is accepted; all but the last do not look at counts.
  cases accepts_iff.1 haccepts with
  | any hany => exact accepts_iff.2 (.any ((h.same any).trans hany))
  | suppliedAny hany => exact accepts_iff.2 (.suppliedAny hany)
  | same hsame => exact accepts_iff.2 (.same ((h.same supplied).trans hsame))
  | anyArray hgeneric hsupplied =>
    exact accepts_iff.2 (.anyArray ((h.same array).trans hgeneric) hsupplied)
  | @single u hgeneric hsingle hu hslot =>
    have hfirst : s.slots[0]? = some u := by rwa [← List.head?_eq_getElem?]
    obtain ⟨v, hv, hwidens⟩ := h.slots 0 u hfirst
    rw [← List.head?_eq_getElem?] at hv
    exact accepts_iff.2 (.single ((h.same array).trans hgeneric) (harray.trans hsingle) hv
      (hwidens supplied hslot))
  | unknown hgeneric hexpected hunknown =>
    exact accepts_iff.2 (.unknown ((h.same array).trans hgeneric) (harray.trans hexpected) hunknown)
  | slots hgeneric hexpected hsupplied htakes =>
    exact accepts_iff.2 (.slots ((h.same array).trans hgeneric) (harray.trans hexpected) hsupplied
      (h.takes htakes))

end Loosened

/-- A type accepts what it did before if one of its sequences requires no more values. -/
theorem widens_of_changed {a b : ValueType} (h : Changed Relaxed a b) : Widens a b := by
  -- Induction on the depth at which the count is changed.
  induction h with
  | @here s t h =>
    refine Loosened.widens ⟨h.unbounded, h.requiredCount, same_relaxed h, by rw [h.slots], ?_⟩
    intro i u hu
    exact ⟨u, h.slots ▸ hu, fun _ => id⟩
  | @slot s i u v hu h ih =>
    have hsame := same_changed (Changed.slot hu h)
    refine Loosened.widens ⟨rfl, ?_, hsame, List.length_set, ?_⟩
    · simp [TypeSequence.requiredCount]
    · intro j u' hu'
      by_cases hj : i = j
      · subst hj
        rw [hu] at hu'
        cases hu'
        exact ⟨v, List.getElem?_set_self (List.getElem?_eq_some_iff.1 hu).1, ih⟩
      · exact ⟨u', by rw [List.getElem?_set_ne hj, hu'], fun _ => id⟩

/-- What is saturated is so the other way round. -/
theorem Changed.relaxed_symm {a b : ValueType} (h : Changed Saturated a b) :
    Changed Relaxed b a := by
  induction h with
  | here h => exact .here h.relaxed.2
  | @slot s i u v hu h ih =>
    obtain ⟨slots, unbounded, optional⟩ := s
    obtain ⟨hi, rfl⟩ := List.getElem?_eq_some_iff.1 hu
    have hslots : (slots.set i v).set i slots[i] = slots := by
      rw [List.set_set, List.set_getElem_self hi]
    have hback := Changed.slot (s := ⟨slots.set i v, unbounded, optional⟩)
      (List.getElem?_set_self hi) ih
    dsimp only at hback
    rwa [hslots] at hback

/-- If the optional count of one sequence is raised, at whatever depth of a type, this requires no
more values and the type accepts what it did before. Counts that are no lower than the number of
slots are alike: nothing is required, and the same values are accepted. -/
theorem accepts_optional :
    (∀ s t, Raised s t → t.requiredCount ≤ s.requiredCount) ∧
      (∀ expected raised, Changed Raised expected raised → ∀ supplied,
        expected.accepts supplied = true → raised.accepts supplied = true) ∧
      (∀ s t, Saturated s t → s.requiredCount = 0 ∧ t.requiredCount = 0) ∧
      ∀ expected other, Changed Saturated expected other → ∀ supplied,
        expected.accepts supplied = other.accepts supplied := by
  refine ⟨fun _ _ h => h.relaxed.requiredCount, fun _ _ h => ?_, fun _ _ h => h.requiredCount_eq,
    fun _ _ h supplied => ?_⟩
  · exact widens_of_changed (h.imp fun _ _ => Raised.relaxed)
  · have hother := widens_of_changed (h.imp fun _ _ hst => hst.relaxed.1)
    have hback := widens_of_changed h.relaxed_symm
    rw [Bool.eq_iff_iff]
    exact ⟨hother supplied, hback supplied⟩

/-- A string and any number of triples. Once the last element of a triple may be left out, pairs
are taken as well; from three elements on the count is of no effect. -/
theorem accepts_optional_triples :
    let triple (n : Nat) : TypeSequence := ⟨[.number, .string, .number], false, n⟩
    let list (n : Nat) : ValueType := expanded ⟨[.string, expanded (triple n)], true, 0⟩
    let triples := ofElements [.string, ofElements [.number, .string, .number]]
    let pairs := ofElements [.string, ofElements [.number, .string]]
    Raised (triple 0) (triple 1) ∧ Changed Raised (list 0) (list 1) ∧
      (triple 1).requiredCount ≤ (triple 0).requiredCount ∧ (list 0).accepts triples = true ∧
      (list 1).accepts triples = true ∧ (list 0).accepts pairs = false ∧
      (list 1).accepts pairs = true ∧
      Saturated (triple 3) (triple 7) ∧ Changed Saturated (list 3) (list 7) ∧
      (triple 7).requiredCount = 0 ∧ (list 3).accepts pairs = (list 7).accepts pairs := by
  intro triple list triples pairs
  have hraised : Raised (triple 0) (triple 1) := ⟨1, by decide, rfl⟩
  have hlist : Changed Raised (list 0) (list 1) := .slot (i := 1) rfl (.here hraised)
  have haccepts : (list 0).accepts triples = true := by decide
  have hsaturated : Saturated (triple 3) (triple 7) := ⟨by decide, 7, by decide, rfl⟩
  have hlist' : Changed Saturated (list 3) (list 7) := .slot (i := 1) rfl (.here hsaturated)
  obtain ⟨hrequired, hmore, hzero, hsame⟩ := accepts_optional
  exact ⟨hraised, hlist, hrequired _ _ hraised, haccepts, hmore _ _ hlist _ haccepts, by decide,
    by decide, hsaturated, hlist', (hzero _ _ hsaturated).2, hsame _ _ hlist' pairs⟩

end ValueType

end Sqf
