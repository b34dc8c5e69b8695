import Mathlib.Data.List.Forall2
import Sqf.Command.Descriptor

/-!
# Which overload is taken

The overloads of a command are tried in the order of declaration, and the first one whose
parameters accept all operands is taken. If there is none, the one that is reported is the first
of those that accept the most operands from the left. So the outcome is settled by the signatures
that were declared and by their order, whichever way the table was put together
(`resolve_declared`).
-/

namespace Sqf

/-! ## Accepting all operands -/

namespace Signature

/-- There is a parameter for each operand, and it accepts the operand at its place. -/
def AcceptsAll (s : Signature) (supplied : List ValueType) : Prop :=
  List.Forall₂ (fun p t => p.accepts t = true) s.parameters supplied

/-- An overload without a mismatch accepts all operands. -/
theorem mismatch?_eq_none_iff {s : Signature} {supplied : List ValueType} :
    s.mismatch? supplied = none ↔ s.AcceptsAll supplied := by
  unfold mismatch? AcceptsAll
  split
  · next hlength => simp [List.forall₂_iff_zip, hlength]
  · next hlength => exact iff_of_false (by simp) fun h => hlength h.length_eq

/-- It is taken just if it does. -/
theorem takes_iff {s : Signature} {supplied : List ValueType} :
    s.takes supplied = true ↔ s.AcceptsAll supplied := by
  rw [takes, Option.isNone_iff_eq_none, mismatch?_eq_none_iff]

end Signature

/-! ## Tables and what they declare -/

namespace Table

/-- The table comes about by declaring these signatures in this order: one by one, from
descriptors, or by extending one table with another. -/
inductive Declares : Table → List Signature → Prop
  | empty : Declares .empty []
  | insert {t : Table} {ss : List Signature} (s : Signature) (h : Declares t ss) :
      Declares (t.insert s) (ss ++ [s])
  | load {ds : List Descriptor} {t : Table} {usages : List (List Signature)}
      (husages : ds.mapM Descriptor.toSignatures = .ok usages)
      (h : Table.ofDescriptors ds = .ok t) : Declares t usages.flatten
  | extend {t u : Table} {ss us : List Signature} (ht : Declares t ss) (hu : Declares u us) :
      Declares (t ++ u) (ss ++ us)

/-- A table has the signatures that were declared, in their order. -/
theorem Declares.signatures_eq {t : Table} {ss : List Signature} (h : t.Declares ss) :
    t.signatures = ss := by
  induction h with
  | empty => rfl
  | insert s _ ih => rw [signatures_insert, ih]
  | load husages h =>
    rw [Table.ofDescriptors, husages] at h
    cases h
    exact signatures_ofSignatures _
  | extend _ _ iht ihu => rw [signatures_append, iht, ihu]

/-! ## First, and first of the furthest -/

section

variable {supplied : List ValueType}

/-- The first of the overloads that accepts all operands. -/
def FirstToAccept (supplied : List ValueType) (overloads : List Signature) (s : Signature) : Prop :=
  ∃ before behind, overloads = before ++ s :: behind ∧ s.AcceptsAll supplied ∧
    ∀ r ∈ before, ¬ r.AcceptsAll supplied

/-- No overload accepts all operands, the greatest mismatch index is `argument`, and `closest` is
the first overload that has it. -/
def FirstFurthest (supplied : List ValueType) (overloads : List Signature) (closest : Signature)
    (argument : Nat) : Prop :=
  ∃ before behind, overloads = before ++ closest :: behind ∧
    closest.mismatch? supplied = some argument ∧
    (∀ r ∈ before, ∃ n, r.mismatch? supplied = some n ∧ n < argument) ∧
    ∀ r ∈ behind, ∃ n, r.mismatch? supplied = some n ∧ n ≤ argument

/-- The first overload that accepts all is found by a search from the front. -/
theorem firstToAccept_iff {ss : List Signature} {s : Signature} :
    FirstToAccept supplied ss s ↔ ss.find? (·.takes supplied) = some s := by
  simp only [FirstToAccept, List.find?_eq_some_iff_append, Bool.not_eq_true', ← Bool.not_eq_true,
    Signature.takes_iff]
  constructor
  · rintro ⟨before, behind, hss, hs, hbefore⟩
    exact ⟨hs, before, behind, hss, hbefore⟩
  · rintro ⟨hs, before, behind, hss, hbefore⟩
    exact ⟨before, behind, hss, hs, hbefore⟩

namespace FirstFurthest

variable {ss : List Signature} {r s : Signature} {m n : Nat}

/-- No overload accepts more operands than the one that is reported. -/
theorem le (h : FirstFurthest supplied ss s n) (hr : r ∈ ss) :
    ∃ m, r.mismatch? supplied = some m ∧ m ≤ n := by
  obtain ⟨before, behind, rfl, hs, hbefore, hbehind⟩ := h
  rcases List.mem_append.1 hr with hr | hr
  · obtain ⟨m, hm, hlt⟩ := hbefore r hr
    exact ⟨m, hm, Nat.le_of_lt hlt⟩
  · rcases List.mem_cons.1 hr with rfl | hr
    · exact ⟨n, hs, Nat.le_refl n⟩
    · exact hbehind r hr

/-- One more overload that gets no further. -/
theorem push (h : FirstFurthest supplied ss s n) (hr : r.mismatch? supplied = some m)
    (hle : m ≤ n) : FirstFurthest supplied (ss ++ [r]) s n := by
  obtain ⟨before, behind, rfl, hs, hbefore, hbehind⟩ := h
  refine ⟨before, behind ++ [r], by simp, hs, hbefore, ?_⟩
  intro q hq
  rcases List.mem_append.1 hq with hq | hq
  · exact hbehind q hq
  · obtain rfl := List.mem_singleton.1 hq
    exact ⟨m, hr, hle⟩

/-- One more overload that gets further than all others. -/
theorem push_further (h : FirstFurthest supplied ss s n) (hr : r.mismatch? supplied = some m)
    (hlt : n < m) : FirstFurthest supplied (ss ++ [r]) r m := by
  refine ⟨ss, [], rfl, hr, ?_, List.forall_mem_nil _⟩
  intro q hq
  obtain ⟨k, hk, hle⟩ := h.le hq
  exact ⟨k, hk, Nat.lt_of_le_of_lt hle hlt⟩

/-- What stands first from a place on is what is looked for there, if all before that has a lower
mismatch index. -/
theorem eq_of_suffix {behind before' behind' : List Signature} (hsuffix : s :: behind = before' ++
    r :: behind') (hs : s.mismatch? supplied = some n)
    (hbefore' : ∀ q ∈ before', ∃ m, q.mismatch? supplied = some m ∧ m < n) : s = r := by
  cases before' with
  | nil => exact (List.cons_eq_cons.1 hsuffix).1
  | cons q before' =>
    obtain ⟨rfl, -⟩ := List.cons_eq_cons.1 hsuffix
    obtain ⟨m, hm, hlt⟩ := hbefore' s List.mem_cons_self
    rw [hs] at hm
    cases hm
    exact absurd hlt (Nat.lt_irrefl n)

/-- There is only one that is the first of the furthest. -/
theorem unique (h : FirstFurthest supplied ss s n) (h' : FirstFurthest supplied ss r m) :
    s = r ∧ n = m := by
  obtain ⟨before, behind, hss, hs, hbefore, -⟩ := id h
  obtain ⟨before', behind', hss', hr, hbefore', -⟩ := id h'
  obtain rfl : n = m := by
    obtain ⟨k, hk, hle⟩ := h.le (r := r) (by simp [hss'])
    obtain ⟨k', hk', hle'⟩ := h'.le (r := s) (by simp [hss])
    obtain rfl := Option.some.inj (hr.symm.trans hk)
    obtain rfl := Option.some.inj (hs.symm.trans hk')
    exact Nat.le_antisymm hle' hle
  refine ⟨?_, rfl⟩
  rcases List.append_eq_append_iff.1 (hss.symm.trans hss') with
    ⟨between, rfl, hsuffix⟩ | ⟨between, rfl, hsuffix⟩
  · exact eq_of_suffix hsuffix hs fun q hq => hbefore' q (List.mem_append_right _ hq)
  · exact (eq_of_suffix hsuffix hr fun q hq => hbefore q (List.mem_append_right _ hq)).symm

end FirstFurthest

/-! ## The search through the overloads -/

/-- What is kept of the overloads that have been looked at. -/
def IsBest (supplied : List ValueType) (seen : List Signature) (best : Option (Signature × Nat)) :
    Prop :=
  best.elim (seen = []) fun b => FirstFurthest supplied seen b.1 b.2

/-- One overload is looked at that does not accept all operands. -/
theorem pick_cons {s : Signature} {n : Nat} (hs : s.mismatch? supplied = some n)
    (best : Option (Signature × Nat)) (ss : List Signature) :
    ∃ b, pick supplied best (s :: ss) = pick supplied (some b) ss ∧
      ∀ seen, IsBest supplied seen best → IsBest supplied (seen ++ [s]) (some b) := by
  cases best with
  | none =>
    refine ⟨(s, n), by simp [pick, hs], ?_⟩
    rintro _ rfl
    exact ⟨[], [], rfl, hs, List.forall_mem_nil _, List.forall_mem_nil _⟩
  | some b =>
    by_cases hlt : b.2 < n
    · exact ⟨(s, n), by simp [pick, hs, hlt], fun _ h => FirstFurthest.push_further h hs hlt⟩
    · exact ⟨b, by simp [pick, hs, hlt], fun _ h =>
        FirstFurthest.push h hs (Nat.le_of_not_lt hlt)⟩

/-- An overload that accepts all ends the search. -/
theorem pick_cons_found {s : Signature} (hs : s.mismatch? supplied = none)
    (best : Option (Signature × Nat)) (ss : List Signature) :
    pick supplied best (s :: ss) = .found s := by
  simp [pick, hs]

/-- A search among some overloads finds one, or has one to report. -/
theorem pick_cases {best : Option (Signature × Nat)} {ss : List Signature}
    (h : best ≠ none ∨ ss ≠ []) : (∃ s, pick supplied best ss = .found s) ∨
      ∃ s n, pick supplied best ss = .noMatch s n := by
  induction ss generalizing best with
  | nil =>
    obtain ⟨b, rfl⟩ := Option.ne_none_iff_exists'.1 (h.resolve_right (not_not_intro rfl))
    exact .inr ⟨b.1, b.2, rfl⟩
  | cons s ss ih =>
    cases hs : s.mismatch? supplied with
    | none => exact .inl ⟨s, pick_cons_found hs best ss⟩
    | some n =>
      obtain ⟨b, hpick, -⟩ := pick_cons hs best ss
      rw [hpick]
      exact ih (.inl (by simp))

/-- What is found does not depend on the best mismatch so far. -/
theorem pick_eq_found_iff {best : Option (Signature × Nat)} {ss : List Signature} {s : Signature} :
    pick supplied best ss = .found s ↔ FirstToAccept supplied ss s := by
  rw [firstToAccept_iff]
  induction ss generalizing best with
  | nil => cases best <;> simp [pick]
  | cons r ss ih =>
    cases hr : r.mismatch? supplied with
    | none => simp [pick_cons_found hr, Signature.takes, hr]
    | some n =>
      obtain ⟨b, hpick, -⟩ := pick_cons hr best ss
      simp [hpick, ih, Signature.takes, hr]

/-- What is reported is the first of the furthest, among those seen and those to come. -/
theorem pick_eq_noMatch_iff {seen : List Signature} {best : Option (Signature × Nat)}
    (hbest : IsBest supplied seen best) {ss : List Signature} {closest : Signature}
    {argument : Nat} : pick supplied best ss = .noMatch closest argument ↔
      FirstFurthest supplied (seen ++ ss) closest argument := by
  -- The best so far stands for the overloads that have been seen.
  induction ss generalizing seen best with
  | nil =>
    rw [List.append_nil]
    cases best with
    | none =>
      cases hbest
      simp [pick, FirstFurthest]
    | some b =>
      constructor
      · rintro ⟨⟩
        exact hbest
      · intro h
        obtain ⟨rfl, rfl⟩ := FirstFurthest.unique hbest h
        rfl
  | cons r ss ih =>
    cases hr : r.mismatch? supplied with
    | none =>
      rw [pick_cons_found hr]
      refine iff_of_false (by simp) fun h => ?_
      obtain ⟨n, hn, -⟩ := h.le (r := r) (by simp)
      simp [hr] at hn
    | some n =>
      obtain ⟨b, hpick, hnext⟩ := pick_cons hr best ss
      rw [hpick, ih (hnext seen hbest), List.append_assoc, List.singleton_append]

/-! ## The outcome -/

variable {t : Table} {name : String} {arity : Arity}

/-- With overloads of the arity, one of them is picked. -/
theorem resolve_of_ne_nil (h : t.overloads name arity ≠ []) :
    t.resolve name arity supplied = pick supplied none (t.overloads name arity) := by
  unfold resolve
  split
  · exact absurd ‹_› h
  · rfl

/-- Without, it is asked whether the name is known at all. -/
theorem resolve_of_eq_nil (h : t.overloads name arity = []) :
    t.resolve name arity supplied =
      if t.isKnown name then .unsupportedArity else .unknown := by
  rw [resolve, h]

/-- So with overloads the outcome is one of two. -/
theorem resolve_cases (supplied : List ValueType) (h : t.overloads name arity ≠ []) :
    (∃ s, t.resolve name arity supplied = .found s) ∨
      ∃ s n, t.resolve name arity supplied = .noMatch s n := by
  rw [resolve_of_ne_nil h]
  exact pick_cases (.inr h)

/-- A name that has overloads is known. -/
theorem isKnown_of_overloads (h : t.overloads name arity ≠ []) : t.isKnown name = true := by
  obtain ⟨s, hs⟩ := List.exists_mem_of_ne_nil _ h
  rw [overloads_eq, List.mem_filter, Bool.and_eq_true] at hs
  exact isKnown_iff.2 ⟨s, hs.1, hs.2.2⟩

theorem resolve_eq_unknown_iff :
    t.resolve name arity supplied = .unknown ↔ t.isKnown name = false := by
  by_cases h : t.overloads name arity = []
  · rw [resolve_of_eq_nil h]
    cases t.isKnown name <;> simp
  · rw [isKnown_of_overloads h]
    rcases resolve_cases supplied h with ⟨s, hs⟩ | ⟨s, n, hs⟩ <;> simp [hs]

theorem resolve_eq_unsupportedArity_iff : t.resolve name arity supplied = .unsupportedArity ↔
    t.isKnown name = true ∧ t.overloads name arity = [] := by
  by_cases h : t.overloads name arity = []
  · rw [resolve_of_eq_nil h]
    cases t.isKnown name <;> simp [h]
  · rcases resolve_cases supplied h with ⟨s, hs⟩ | ⟨s, n, hs⟩ <;> simp [hs, h]

theorem resolve_eq_found_iff {s : Signature} : t.resolve name arity supplied = .found s ↔
    FirstToAccept supplied (t.overloads name arity) s := by
  by_cases h : t.overloads name arity = []
  · rw [resolve_of_eq_nil h, h]
    cases t.isKnown name <;> simp [FirstToAccept]
  · rw [resolve_of_ne_nil h, pick_eq_found_iff]

theorem exists_found_iff : (∃ s, t.resolve name arity supplied = .found s) ↔
    ∃ s ∈ t.overloads name arity, s.AcceptsAll supplied := by
  simp only [resolve_eq_found_iff, firstToAccept_iff, ← Option.isSome_iff_exists,
    List.find?_isSome, Signature.takes_iff]

theorem resolve_eq_noMatch_iff {closest : Signature} {argument : Nat} :
    t.resolve name arity supplied = .noMatch closest argument ↔
      FirstFurthest supplied (t.overloads name arity) closest argument := by
  by_cases h : t.overloads name arity = []
  · rw [resolve_of_eq_nil h, h]
    cases t.isKnown name <;> simp [FirstFurthest]
  · have hbest : IsBest supplied [] none := rfl
    rw [resolve_of_ne_nil h, pick_eq_noMatch_iff hbest, List.nil_append]

end

/-- The outcome for a command, by the signatures declared with its name: unknown if there are none,
an unsupported arity if none has the arity, the first overload that accepts all operands if there is
one, and else the first that gets furthest, with the operand that it refuses. -/
theorem resolve_declared {t : Table} {declared : List Signature} (h : t.Declares declared)
    (name : String) (arity : Arity) (supplied : List ValueType) :
    let overloads := declared.filter fun s => s.arity = arity && sameName s.name name
    (t.resolve name arity supplied = .unknown ↔ ∀ s ∈ declared, sameName s.name name = false) ∧
      (t.resolve name arity supplied = .unsupportedArity ↔
        (∃ s ∈ declared, sameName s.name name = true) ∧ overloads = []) ∧
      (∀ s, t.resolve name arity supplied = .found s ↔ FirstToAccept supplied overloads s) ∧
      ∀ closest argument, t.resolve name arity supplied = .noMatch closest argument ↔
        FirstFurthest supplied overloads closest argument := by
  intro overloads
  have hoverloads : t.overloads name arity = overloads := by
    rw [overloads_eq, h.signatures_eq]
  have hknown : t.isKnown name = true ↔ ∃ s ∈ declared, sameName s.name name = true := by
    rw [isKnown_iff, h.signatures_eq]
  refine ⟨?_, ?_, ?_, ?_⟩
  · rw [resolve_eq_unknown_iff, ← Bool.not_eq_true, hknown]
    simp
  · rw [resolve_eq_unsupportedArity_iff, hknown, hoverloads]
  · intro s
    rw [resolve_eq_found_iff, hoverloads]
  · intro closest argument
    rw [resolve_eq_noMatch_iff, hoverloads]

/-- A number and a string go further with two numbers than with two strings, though the overload
for strings is declared first. -/
theorem resolve_declared_combine :
    let strings : Signature := ⟨"combine", .binary, some ⟨.string, "", false⟩,
      some ⟨.string, "", false⟩, .string⟩
    let numbers : Signature := ⟨"COMBINE", .binary, some ⟨.number, "", false⟩,
      some ⟨.number, "", false⟩, .number⟩
    let combine : Descriptor := ⟨"COMBINE", [⟨some "number", some "number", "number"⟩]⟩
    ∃ loaded, Table.ofDescriptors [combine] = .ok loaded ∧
      (Table.empty.insert strings ++ loaded).Declares [strings, numbers] ∧
      (Table.empty.insert strings ++ loaded).resolve "combine" .binary [.number, .string] =
        .noMatch numbers 1 := by
  intro strings numbers combine
  have hload : [combine].mapM Descriptor.toSignatures = .ok [[numbers]] := rfl
  have hdeclared : (Table.empty.insert strings ++ Table.ofSignatures [numbers]).Declares
      [strings, numbers] :=
    .extend (.insert strings .empty) (.load hload rfl)
  refine ⟨Table.ofSignatures [numbers], rfl, hdeclared, ?_⟩
  refine ((resolve_declared hdeclared "combine" .binary [.number, .string]).2.2.2 numbers 1).2 ?_
  -- The two spellings are one name, so both overloads are tried.
  have hname : "COMBINE".toLower = "combine".toLower := by
    have hletters : ("COMBINE".map Char.toLower).toList = ("combine".map Char.toLower).toList := by
      simp
    exact String.toList_inj.1 hletters
  have hoverloads : ([strings, numbers].filter fun s =>
      s.arity = .binary && sameName s.name "combine") = [strings, numbers] := by
    simp [strings, numbers, sameName, hname]
  rw [hoverloads]
  refine ⟨[strings], [], rfl, by decide, ?_, List.forall_mem_nil _⟩
  exact List.forall_mem_singleton.2 ⟨0, by decide, Nat.zero_lt_one⟩

end Table

end Sqf
