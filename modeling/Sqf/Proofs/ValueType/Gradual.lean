import Sqf.Proofs.Command.Resolution
import Sqf.Proofs.ValueType.Routes

/-!
# Knowing less is no error

A type that is not known is `any`. Where a value is accepted, it is accepted too if less is known
of it, that is with `any` for its type or for slots of it at whatever depth. So with less known of
its operands a command still has an overload that takes them (`accepts_blurred`).

A sequence of one slot that does not repeat stands for the slot, and is left out here.
-/

namespace Sqf

namespace ValueType

/-! ## Types of which less is known -/

/-- The second type is the first one with `any` for it or for slots of it at whatever depth. -/
inductive Blurred : ValueType → ValueType → Prop
  | any (t : ValueType) : Blurred t .any
  | self (t : ValueType) : Blurred t t
  | slots {s t : TypeSequence} (hunbounded : s.unbounded = t.unbounded)
      (hoptional : s.optional = t.optional) (h : List.Forall₂ Blurred s.slots t.slots) :
      Blurred (.expanded s) (.expanded t)

/-- The first type stands in the second one at some depth, or is it. -/
inductive IsPart (part : ValueType) : ValueType → Prop
  | self : IsPart part part
  | slot {s : TypeSequence} {t : ValueType} (ht : t ∈ s.slots) (h : IsPart part t) :
      IsPart part (.expanded s)

/-- No sequence in the type, at whatever depth, has just one slot, unless it repeats. -/
def NoSingles (t : ValueType) : Prop :=
  ∀ s, IsPart (expanded s) t → s.unbounded = false → s.slots.length ≠ 1

/-- The slots of such a type are such types. -/
theorem NoSingles.slot {s : TypeSequence} {t : ValueType} (h : (expanded s).NoSingles)
    (ht : t ∈ s.slots) : t.NoSingles :=
  fun r hr => h r (.slot ht hr)

theorem noSingles_primitive (p : Primitive) : (primitive p).NoSingles := by
  rintro s ⟨⟩

theorem noSingles_expanded {s : TypeSequence} (h : s.unbounded = false → s.slots.length ≠ 1)
    (hslots : ∀ t ∈ s.slots, t.NoSingles) : (expanded s).NoSingles := by
  intro r hr
  cases hr with
  | self => exact h
  | slot ht hr => exact hslots _ ht r hr

/-- A sequence that is not a single slot is an array. -/
theorem NoSingles.isArray {s : TypeSequence} (h : (expanded s).NoSingles) : s.isArray = true := by
  have hone := h s .self
  cases hunbounded : s.unbounded with
  | true => simp [TypeSequence.isArray, hunbounded]
  | false =>
    have hlength := hone hunbounded
    cases hslots : s.slots with
    | nil => simp [TypeSequence.isArray, TypeSequence.isEmpty, hunbounded, hslots]
    | cons t ts =>
      have hts : 0 < ts.length := by
        rw [hslots, List.length_cons] at hlength
        omega
      simp [TypeSequence.isArray, hslots, hts]

/-- What is the same as a primitive type stays so, or becomes `any`. -/
theorem isPrimitive_blurred {s t : TypeSequence} {p : Primitive}
    (h : List.Forall₂ Blurred s.slots t.slots)
    (hp : s.isPrimitive p = true) : t.isPrimitive p = true ∨ t.isPrimitive .any = true := by
  rcases TypeSequence.isPrimitive_cases hp with ⟨hnil, rfl⟩ | hone
  · rw [hnil, List.forall₂_nil_left_iff] at h
    simp [TypeSequence.isPrimitive, h]
  · rw [hone] at h
    obtain ⟨u, _, hblurred, hnil, ht⟩ := List.forall₂_cons_left_iff.1 h
    obtain rfl := List.forall₂_nil_left_iff.1 hnil
    cases hblurred with
    | any => simp [TypeSequence.isPrimitive, ht]
    | self => simp [TypeSequence.isPrimitive, ht]

end ValueType

/-! ## Tests of values of which less is known -/

/-- The second value passes each of the tests that the first one passes. -/
def PassesToo (tests : List (ValueType → Bool)) (s t : ValueType) : Prop :=
  ∀ f ∈ tests, f s = true → f t = true

/-- Values pass tests by position if they pass each test that the values in their place pass. -/
theorem passAll_mono {fs : List (ValueType → Bool)} {ss ts : List ValueType}
    (h : List.Forall₂ (PassesToo fs) ss ts) (hpass : passAll fs ss = true) :
    passAll fs ts = true := by
  -- The last test stands for all further values, so it is kept while the values go by.
  fun_induction passAll fs ss generalizing ts with
  | case1 fs =>
    rw [List.forall₂_nil_left_iff] at h
    rw [h, passAll]
  | case2 s ss => cases hpass
  | case3 f s ss ih =>
    obtain ⟨t, ts, hfirst, hothers, rfl⟩ := List.forall₂_cons_left_iff.1 h
    rw [Bool.and_eq_true] at hpass
    rw [passAll, hfirst f List.mem_cons_self hpass.1, ih hothers hpass.2]
    rfl
  | case4 f g fs s ss ih =>
    obtain ⟨t, ts, hfirst, hothers, rfl⟩ := List.forall₂_cons_left_iff.1 h
    rw [Bool.and_eq_true] at hpass
    have hothers := hothers.imp fun s t hst k hk => hst k (List.mem_cons_of_mem f hk)
    rw [passAll, hfirst f List.mem_cons_self hpass.1, ih hothers hpass.2]
    rfl

/-- So a sequence takes the values of which less is known. -/
theorem TypeSequence.takes_mono {s : TypeSequence} {tests : List (ValueType → Bool)}
    {ss ts : List ValueType} (h : List.Forall₂ (PassesToo tests) ss ts)
    (htakes : s.takes tests ss = true) : s.takes tests ts = true := by
  rw [takes, Bool.and_eq_true, Bool.or_eq_true] at htakes ⊢
  rw [← h.length_eq]
  exact ⟨htakes.1, htakes.2.imp_right (passAll_mono h)⟩

/-! ## Acceptance -/

namespace ValueType

/-- A type that is the same as an array type accepts it if less is known of it, provided that its
slots do so. -/
theorem accepts_of_same_blurred {expected : ValueType} {s t : TypeSequence}
    (hs : s.isArray = true) (ht : t.isArray = true) (hunbounded : s.unbounded = t.unbounded)
    (hslots : List.Forall₂ Blurred s.slots t.slots)
    (hstill : List.Forall₂ (PassesToo (expected.demands.map accepts)) s.slots t.slots)
    (h : expected.same (expanded s) = true) : expected.accepts (expanded t) = true := by
  -- A primitive type is the same as a sequence of its own slot only, and that slot may now be
  -- unknown.
  cases expected with
  | primitive p =>
    rcases isPrimitive_blurred hslots h with hp | hany
    · exact accepts_iff.2 (.same hp)
    · exact accepts_iff.2 (.suppliedAny hany)
  | expanded e =>
    obtain ⟨hrepeats, hsame⟩ := same_expanded_iff.1 h
    have hlength := (sameSlots_iff.1 hsame).length_eq
    by_cases he : e.slots = []
    · -- Without slots nothing is blurred.
      have hnil : t.slots = [] := by
        rw [he] at hlength
        exact List.eq_nil_of_length_eq_zero (hslots.length_eq.symm.trans hlength.symm)
      refine accepts_iff.2 (.same (same_expanded_iff.2 ⟨hrepeats.trans hunbounded, ?_⟩))
      rw [he, hnil]
      rfl
    · have harray : e.isArray = true := (TypeSequence.isArray_congr hrepeats hlength).trans hs
      exact accepts_of_takes harray ht
        (TypeSequence.takes_mono hstill (TypeSequence.takes_same he hsame))

/-- Where nothing stands for a single slot, what is accepted stays so if less is known of it. -/
theorem accepts_of_blurred {expected supplied blurred : ValueType} (hsupplied : supplied.NoSingles)
    (hblurred : Blurred supplied blurred) (h : expected.accepts supplied = true) :
    expected.accepts blurred = true := by
  -- Induction on the types that are expected at the slots.
  induction expected using demands_induction generalizing supplied blurred with
  | h expected ih =>
    cases hblurred with
    | any => exact accepts_any expected
    | self => exact h
    | @slots s t hunbounded hoptional hslots =>
      have hs : s.isArray = true := hsupplied.isArray
      have ht : t.isArray = true := by
        rw [← TypeSequence.isArray_congr hunbounded hslots.length_eq, hs]
      have hstill : List.Forall₂ (PassesToo (expected.demands.map accepts)) s.slots t.slots := by
        have hall : List.Forall₂ (fun s t => s.NoSingles ∧ Blurred s t) s.slots t.slots :=
          (List.forall₂_and_left _ _).2 ⟨fun u hu => hsupplied.slot hu, hslots⟩
        refine hall.imp fun u v huv f hf => ?_
        obtain ⟨e, he, rfl⟩ := List.mem_map.1 hf
        exact ih e he huv.1 huv.2
      cases accepts_iff.1 h with
      | any h => exact accepts_iff.2 (.any h)
      | suppliedAny h =>
        have hany : t.isPrimitive .any = true := (isPrimitive_blurred hslots h).elim id id
        exact accepts_iff.2 (.suppliedAny hany)
      | same h => exact accepts_of_same_blurred hs ht hunbounded hslots hstill h
      | anyArray h _ => exact accepts_iff.2 (.anyArray h ht)
      | single h hsingle hu haccepts =>
        have hstands := ih _ (List.mem_of_mem_head? hu) hsupplied
          (.slots hunbounded hoptional hslots) haccepts
        exact accepts_iff.2 (.single h hsingle hu hstands)
      | unknown h harray hunknown =>
        rcases isPrimitive_blurred hslots hunknown with hp | hany
        · exact accepts_iff.2 (.unknown h harray hp)
        · exact accepts_iff.2 (.suppliedAny hany)
      | slots h harray _ htakes =>
        exact accepts_of_takes harray ht (TypeSequence.takes_mono hstill htakes)

end ValueType

/-- A parameter accepts what it accepted when less is known. -/
theorem Parameter.accepts_of_blurred {p : Parameter} {supplied blurred : ValueType}
    (hsupplied : supplied.NoSingles) (hblurred : supplied.Blurred blurred)
    (h : p.accepts supplied = true) : p.accepts blurred = true := by
  rw [accepts, Bool.or_eq_true, Bool.and_eq_true] at h ⊢
  exact h.imp (ValueType.accepts_of_blurred hsupplied hblurred)
    (And.imp_right (ValueType.accepts_of_blurred hsupplied hblurred))

/-- So does an overload with all its operands. -/
theorem Signature.AcceptsAll.of_blurred {s : Signature} {supplied blurred : List ValueType}
    (hsupplied : ∀ t ∈ supplied, t.NoSingles)
    (hblurred : List.Forall₂ ValueType.Blurred supplied blurred) (h : s.AcceptsAll supplied) :
    s.AcceptsAll blurred := by
  rw [AcceptsAll, List.forall₂_iff_get] at h ⊢
  obtain ⟨hlength, hblurred⟩ := List.forall₂_iff_get.1 hblurred
  refine ⟨h.1.trans hlength, ?_⟩
  intro i hi hi'
  have hi'' : i < supplied.length := h.1 ▸ hi
  exact Parameter.accepts_of_blurred (hsupplied _ (List.getElem_mem hi'')) (hblurred i hi'' hi')
    (h.2 i hi hi'')

/-- Where less is known of a supplied type, no error comes up: a type that accepts it still does,
and a command that has an overload for operands of such types still has one. Of the supplied types
none may have a sequence of one slot in it that does not repeat. -/
theorem accepts_blurred :
    (∀ expected supplied blurred : ValueType, supplied.NoSingles → supplied.Blurred blurred →
      expected.accepts supplied = true → expected.accepts blurred = true) ∧
    ∀ (t : Table) (name : String) (arity : Arity) (supplied blurred : List ValueType),
      (∀ t ∈ supplied, t.NoSingles) → List.Forall₂ ValueType.Blurred supplied blurred →
      ∀ s, t.resolve name arity supplied = .found s →
        ∃ r, t.resolve name arity blurred = .found r := by
  refine ⟨fun _ _ _ => ValueType.accepts_of_blurred, ?_⟩
  intro t name arity supplied blurred hsupplied hblurred s hs
  obtain ⟨r, hr, haccepts⟩ := Table.exists_found_iff.1 ⟨s, hs⟩
  exact Table.exists_found_iff.2 ⟨r, hr, haccepts.of_blurred hsupplied hblurred⟩

/-- A command for a text and a pair, given a pair of which only the text is known. -/
theorem accepts_blurred_pair :
    let pair : ValueType := .expanded ⟨[.number, .string], false, 0⟩
    let half : ValueType := .expanded ⟨[.any, .string], false, 0⟩
    let s : Signature := ⟨"show", .binary, some ⟨.string, "", false⟩, some ⟨pair, "", true⟩,
      .nothing⟩
    let t := Table.ofSignatures [s]
    pair.accepts half = true ∧ ∃ r, t.resolve "show" .binary [.string, half] = .found r := by
  intro pair half s t
  have hpair : pair.NoSingles :=
    ValueType.noSingles_expanded (by simp) (by simp [ValueType.noSingles_primitive])
  have hhalf : pair.Blurred half :=
    .slots rfl rfl (.cons (.any _) (.cons (.self _) .nil))
  have hfound : t.resolve "show" .binary [.string, pair] = .found s := by
    rw [Table.resolve_eq_found_iff, Table.overloads_eq]
    refine ⟨[], [], ?_, ?_, List.forall_mem_nil _⟩
    · simp [t, s, sameName]
    · exact .cons (by decide) (.cons (by decide) .nil)
  refine ⟨accepts_blurred.1 pair pair half hpair hhalf (by decide), ?_⟩
  have hsupplied : ∀ u ∈ [ValueType.string, pair], u.NoSingles :=
    List.forall_mem_cons.2 ⟨ValueType.noSingles_primitive _, List.forall_mem_singleton.2 hpair⟩
  exact accepts_blurred.2 t "show" .binary [.string, pair] [.string, half] hsupplied
    (.cons (.self _) (.cons hhalf .nil)) s hfound

end Sqf
