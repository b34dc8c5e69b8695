import Sqf.Proofs.ValueType.Gradual

/-!
# Which descriptors make a type

A descriptor makes a type exactly if it is valid at every depth: all names in it are those of
types, the optional elements of an array are its last ones, and of its elements only the last one
repeats. The type then has the descriptor's shape, with the slots of each array in the order of its
elements (`convert_exact`).
-/

namespace Sqf

namespace TypeDescriptor

/-! ## Valid descriptors -/

/-- The first descriptor stands in the second one at some depth, or is it. -/
inductive IsPart (part : TypeDescriptor) : TypeDescriptor → Prop
  | self : IsPart part part
  | element {elements : List TypeDescriptor} {description : String} {optional : Bool}
      {e : TypeDescriptor} (he : e ∈ elements) (h : IsPart part e) :
      IsPart part (.array elements description optional)

/-- The name of a type, where one is given. -/
def typeName? : TypeDescriptor → Option String
  | named type => some type
  | typed type _ _ _ => some type
  | array _ _ _ => none

/-- The optional elements of an array are its last ones. -/
def OptionalLast (elements : List TypeDescriptor) : Prop :=
  ∃ required optional, elements = required ++ optional ∧
    (∀ e ∈ required, e.isOptional = false) ∧ ∀ e ∈ optional, e.isOptional = true

/-- No element of an array repeats but the last one. -/
def RepeatsLast (elements : List TypeDescriptor) : Prop :=
  ∀ e ∈ elements.dropLast, e.isUnbounded = false

/-- At every depth the names are those of types and the elements of arrays are in order. -/
structure Valid (d : TypeDescriptor) : Prop where
  names : ∀ part type, IsPart part d → part.typeName? = some type →
    (Primitive.ofSpelling? type).isSome
  arrays : ∀ elements description optional, IsPart (.array elements description optional) d →
    OptionalLast elements ∧ RepeatsLast elements

/-- Number of optional elements at the end of an array. -/
def optionalSuffix (elements : List TypeDescriptor) : Nat :=
  (elements.reverse.takeWhile isOptional).length

/-- Whether the last element of an array repeats. -/
def repeats (elements : List TypeDescriptor) : Bool := elements.getLast?.any isUnbounded

/-- The type has the shape of the descriptor: at every depth it has one slot for each element of
an array. -/
inductive Describes : TypeDescriptor → ValueType → Prop
  | named {type : String} {p : Primitive} (h : Primitive.ofSpelling? type = some p) :
      Describes (.named type) (.primitive p)
  | typed {type description : String} {optional unbounded : Bool} {p : Primitive}
      (h : Primitive.ofSpelling? type = some p) :
      Describes (.typed type description optional unbounded) (.primitive p)
  | array {elements : List TypeDescriptor} {description : String} {optional : Bool}
      {slots : List ValueType} (h : List.Forall₂ Describes elements slots) :
      Describes (.array elements description optional)
        (.expanded ⟨slots, repeats elements, optionalSuffix elements⟩)

/-- What holds of names, and of an array if it holds of its elements, holds of all descriptors. -/
theorem elements_induction {P : TypeDescriptor → Prop} (named : ∀ type, P (.named type))
    (typed : ∀ type description optional unbounded, P (.typed type description optional unbounded))
    (array : ∀ elements description optional, (∀ e ∈ elements, P e) →
      P (.array elements description optional)) : ∀ d, P d
  | .named type => named type
  | .typed type description optional unbounded => typed type description optional unbounded
  | .array elements description optional =>
    array elements description optional fun e _ => elements_induction named typed array e
termination_by d => sizeOf d
decreasing_by
  have helement : sizeOf e < sizeOf elements := List.sizeOf_lt_of_mem ‹_›
  simp
  omega

/-! ## Order of the elements -/

/-- Behind an optional element all are optional. -/
def Ordered (elements : List TypeDescriptor) : Prop :=
  elements.Pairwise fun d e => d.isOptional = true → e.isOptional = true

/-- The optional elements are the last ones if behind an optional element all are. -/
theorem optionalLast_iff {elements : List TypeDescriptor} :
    OptionalLast elements ↔ Ordered elements := by
  constructor
  · rintro ⟨required, optional, rfl, hrequired, hoptional⟩
    refine List.pairwise_append.2 ⟨?_, ?_, ?_⟩
    · refine List.pairwise_of_forall_mem_list fun d hd e _ h => ?_
      rw [hrequired d hd] at h
      cases h
    · exact List.pairwise_of_forall_mem_list fun d _ e he _ => hoptional e he
    · exact fun d _ e he _ => hoptional e he
  · intro h
    -- From the front: either the elements before the first optional one grow by one, or all are
    -- optional.
    induction elements with
    | nil => exact ⟨[], [], rfl, List.forall_mem_nil _, List.forall_mem_nil _⟩
    | cons e es ih =>
      obtain ⟨hbehind, hes⟩ := List.pairwise_cons.1 h
      cases he : e.isOptional with
      | true =>
        exact ⟨[], e :: es, rfl, List.forall_mem_nil _,
          List.forall_mem_cons.2 ⟨he, fun d hd => hbehind d hd he⟩⟩
      | false =>
        obtain ⟨required, optional, rfl, hrequired, hoptional⟩ := ih hes
        exact ⟨e :: required, optional, rfl, List.forall_mem_cons.2 ⟨he, hrequired⟩, hoptional⟩

/-- Where the optional elements are the last ones, they are all of the optional elements. -/
theorem OptionalLast.suffix_eq {elements : List TypeDescriptor} (h : OptionalLast elements) :
    optionalSuffix elements = elements.countP isOptional := by
  obtain ⟨required, optional, rfl, hrequired, hoptional⟩ := h
  -- Counted from the end, the run of optional elements stops at the last required one.
  have hnone : required.reverse.takeWhile isOptional = [] := by
    cases hreverse : required.reverse with
    | nil => rfl
    | cons e es =>
      have he : e ∈ required := List.mem_reverse.1 (hreverse ▸ List.mem_cons_self)
      simp [hrequired e he]
  have hall : ∀ e ∈ optional.reverse, e.isOptional = true := fun e he =>
    hoptional e (List.mem_reverse.1 he)
  have hrest : required.countP isOptional = 0 :=
    List.countP_eq_zero.2 fun e he => by simp [hrequired e he]
  have hcount : optional.countP isOptional = optional.length := List.countP_eq_length.2 hoptional
  rw [optionalSuffix, List.reverse_append, List.takeWhile_append_of_pos hall, hnone,
    List.append_nil, List.length_reverse, List.countP_append, hrest, hcount, Nat.zero_add]

/-- An element that repeats has none behind it. -/
theorem repeatsLast_cons {e : TypeDescriptor} {es : List TypeDescriptor} :
    RepeatsLast (e :: es) ↔ (e.isUnbounded = true → es = []) ∧ RepeatsLast es := by
  cases es with
  | nil => simp [RepeatsLast]
  | cons d ds => simp [RepeatsLast]

/-- Whether some element repeats is seen from the front too. -/
theorem repeats_cons {e : TypeDescriptor} {es : List TypeDescriptor}
    (h : e.isUnbounded = true → es = []) : repeats (e :: es) = (e.isUnbounded || repeats es) := by
  cases es with
  | nil => simp [repeats]
  | cons d ds =>
    have he : e.isUnbounded = false := by simpa using h
    simp [repeats, he, List.getLast?_cons]

/-! ## One array -/

section Sequence

variable {command : String} {e : TypeDescriptor} {es : List TypeDescriptor} {s : TypeSequence}

theorem toSequence_nil {count : Nat} :
    toSequence command count [] = .ok s ↔ s = ⟨[], false, count⟩ := by
  constructor
  · rintro ⟨⟩
    rfl
  · rintro rfl
    rfl

/-- One element more. -/
theorem toSequence_cons {count : Nat} :
    toSequence command count (e :: es) = .ok s ↔
      (e.isUnbounded = true → es = []) ∧ (0 < count → e.isOptional = true) ∧
        ∃ t rest, e.convert command = .ok t ∧
          toSequence command (count + if e.isOptional then 1 else 0 : Nat) es = .ok rest ∧
          s = ⟨t :: rest.slots, e.isUnbounded || rest.unbounded, rest.optional⟩ := by
  have hnext : (if e.isOptional then (count : Int) + 1 else count) =
      ((count + if e.isOptional then 1 else 0 : Nat) : Int) := by
    -- The checks are made in this order: on what repeats, on what is optional, and then on the
    -- rest.
    split <;> simp
  rw [toSequence, hnext]
  split
  · next hunbounded =>
    simp only [Bool.and_eq_true, Bool.not_eq_true', List.isEmpty_eq_false_iff] at hunbounded
    simp [hunbounded.1, hunbounded.2]
  · next hunbounded =>
    have hlast : e.isUnbounded = true → es = [] := by simpa using hunbounded
    split
    · next hrequired =>
      have hlate : 0 < count ∧ e.isOptional = false := by simpa [and_comm] using hrequired
      simp [hlate.1, hlate.2]
    · next hrequired =>
      have hearly : 0 < count → e.isOptional = true := by
        intro hcount
        simpa [hcount] using hrequired
      rw [and_iff_right hlast, and_iff_right hearly]
      constructor
      · intro h
        obtain ⟨t, ht, h⟩ := bind_eq_ok_iff.1 h
        obtain ⟨rest, hrest, h⟩ := bind_eq_ok_iff.1 h
        cases h
        exact ⟨t, rest, ht, hrest, rfl⟩
      · rintro ⟨t, rest, ht, hrest, rfl⟩
        exact bind_eq_ok_iff.2 ⟨t, ht, bind_eq_ok_iff.2 ⟨rest, hrest, rfl⟩⟩

/-- The elements behind `count` optional ones make a sequence exactly if each makes a type and they
are in order. -/
theorem toSequence_eq_ok_iff {count : Nat} :
    toSequence command count es = .ok s ↔
      ∃ slots, List.Forall₂ (fun e t => e.convert command = .ok t) es slots ∧ Ordered es ∧
        (0 < count → ∀ e ∈ es, e.isOptional = true) ∧ RepeatsLast es ∧
        s = ⟨slots, repeats es, count + es.countP isOptional⟩ := by
  induction es generalizing count s with
  | nil =>
    rw [toSequence_nil]
    constructor
    · rintro rfl
      exact ⟨[], .nil, .nil, fun _ => List.forall_mem_nil _, List.forall_mem_nil _, rfl⟩
    · rintro ⟨slots, hslots, -, -, -, rfl⟩
      cases hslots
      rfl
  | cons e es ih =>
    have hcount : (count + if e.isOptional then 1 else 0) + es.countP isOptional =
        count + (e :: es).countP isOptional := by
      rw [List.countP_cons]
      omega
    rw [toSequence_cons]
    constructor
    · rintro ⟨hlast, hearly, t, rest, ht, hrest, rfl⟩
      obtain ⟨slots, hslots, hordered, hbehind, hrepeats, rfl⟩ := ih.1 hrest
      -- What stands behind an optional element stands behind one more than before.
      have hoptional : e.isOptional = true → ∀ d ∈ es, d.isOptional = true := by
        intro he
        exact hbehind (by simp [he])
      refine ⟨t :: slots, .cons ht hslots, List.pairwise_cons.2 ⟨?_, hordered⟩, ?_,
        repeatsLast_cons.2 ⟨hlast, hrepeats⟩, ?_⟩
      · exact fun d hd he => hoptional he d hd
      · exact fun hpos => List.forall_mem_cons.2 ⟨hearly hpos, hoptional (hearly hpos)⟩
      · rw [repeats_cons hlast, hcount]
    · rintro ⟨slots, hslots, hordered, hbehind, hrepeats, rfl⟩
      obtain ⟨hlast, hrepeats⟩ := repeatsLast_cons.1 hrepeats
      obtain ⟨hoptional, hordered⟩ := List.pairwise_cons.1 hordered
      cases hslots with
      | @cons _ t _ slots ht hslots =>
        refine ⟨hlast, fun hpos => hbehind hpos e List.mem_cons_self, t, _, ht,
          ih.2 ⟨slots, hslots, hordered, ?_, hrepeats, rfl⟩, ?_⟩
        · intro hpos d hd
          cases he : e.isOptional with
          | true => exact hoptional d hd he
          | false =>
            rw [he] at hpos
            exact hbehind hpos d (List.mem_cons_of_mem _ hd)
        · rw [repeats_cons hlast, hcount]

/-- An array makes a type exactly if each element does and they are in order. -/
theorem convert_array_iff {elements : List TypeDescriptor} {description : String}
    {optional : Bool} {t : ValueType} :
    (array elements description optional).convert command = .ok t ↔
      ∃ slots, List.Forall₂ (fun e t => e.convert command = .ok t) elements slots ∧
        OptionalLast elements ∧ RepeatsLast elements ∧
        t = .expanded ⟨slots, repeats elements, optionalSuffix elements⟩ := by
  have hsequence : (array elements description optional).convert command = .ok t ↔
      ∃ s, toSequence command (0 : Nat) elements = .ok s ∧ Except.ok (.expanded s) =
        (.ok t : Except TypeFault ValueType) := by
    rw [convert]
    exact bind_eq_ok_iff
  rw [hsequence]
  constructor
  · rintro ⟨s, hs, ⟨⟩⟩
    obtain ⟨slots, hslots, hordered, -, hrepeats, rfl⟩ := toSequence_eq_ok_iff.1 hs
    have hlast := optionalLast_iff.2 hordered
    exact ⟨slots, hslots, hlast, hrepeats, by rw [hlast.suffix_eq, Nat.zero_add]⟩
  · rintro ⟨slots, hslots, hlast, hrepeats, rfl⟩
    refine ⟨_, toSequence_eq_ok_iff.2 ⟨slots, hslots, optionalLast_iff.1 hlast, ?_, hrepeats, rfl⟩,
      ?_⟩
    · exact fun h => absurd h (Nat.lt_irrefl 0)
    · rw [hlast.suffix_eq, Nat.zero_add]

end Sequence

/-! ## All depths -/

theorem exists_forall₂ {α β : Type} {R : α → β → Prop} {as : List α}
    (h : ∀ a ∈ as, ∃ b, R a b) : ∃ bs, List.Forall₂ R as bs := by
  induction as with
  | nil => exact ⟨[], .nil⟩
  | cons a as ih =>
    obtain ⟨⟨b, hb⟩, has⟩ := List.forall_mem_cons.1 h
    obtain ⟨bs, hbs⟩ := ih has
    exact ⟨b :: bs, .cons hb hbs⟩

/-- A name makes a type if it is the spelling of one. -/
theorem lookup_eq_ok_iff {command type : String} {t : ValueType} :
    lookup command type = .ok t ↔ ∃ p, Primitive.ofSpelling? type = some p ∧ t = .primitive p := by
  unfold lookup
  split
  · next p hp => simp [hp, eq_comm]
  · next hp => simp [hp]

theorem Valid.element {elements : List TypeDescriptor} {description : String} {optional : Bool}
    {e : TypeDescriptor} (h : (array elements description optional).Valid) (he : e ∈ elements) :
    e.Valid :=
  ⟨fun part type hpart => h.names part type (.element he hpart),
    fun es description optional hpart => h.arrays es description optional (.element he hpart)⟩

/-- A descriptor with a name is valid if the name is that of a type. -/
theorem valid_name {d : TypeDescriptor} {type : String} (hd : d.typeName? = some type) :
    d.Valid ↔ (Primitive.ofSpelling? type).isSome := by
  constructor
  · exact fun h => h.names d type .self hd
  · intro h
    constructor
    · intro part type' hpart htype
      cases hpart with
      | self =>
        rw [hd] at htype
        cases htype
        exact h
      | element => cases hd
    · intro elements description optional hpart
      cases hpart with
      | self => cases hd
      | element => cases hd

/-- An array is valid if its elements are, and are in an order that is allowed. -/
theorem valid_array {elements : List TypeDescriptor} {description : String} {optional : Bool} :
    (array elements description optional).Valid ↔
      OptionalLast elements ∧ RepeatsLast elements ∧ ∀ e ∈ elements, e.Valid := by
  constructor
  · intro h
    obtain ⟨hlast, hrepeats⟩ := h.arrays elements description optional .self
    exact ⟨hlast, hrepeats, fun e he => h.element he⟩
  · rintro ⟨hlast, hrepeats, hvalid⟩
    constructor
    · intro part type hpart htype
      cases hpart with
      | self => cases htype
      | element he hpart => exact (hvalid _ he).names part type hpart htype
    · intro es description' optional' hpart
      cases hpart with
      | self => exact ⟨hlast, hrepeats⟩
      | element he hpart => exact (hvalid _ he).arrays es description' optional' hpart

/-- Names make a type exactly if they are those of types. -/
theorem exists_lookup_iff (command : String) {type : String} :
    (∃ t, lookup command type = .ok t) ↔ (Primitive.ofSpelling? type).isSome := by
  simp [lookup_eq_ok_iff, Option.isSome_iff_exists]

/-- A descriptor makes a type exactly if it is valid. -/
theorem exists_convert_iff (command : String) (d : TypeDescriptor) :
    (∃ t, d.convert command = .ok t) ↔ d.Valid := by
  -- Induction on the elements of arrays.
  induction d using elements_induction with
  | named type =>
    rw [valid_name (rfl : (named type).typeName? = some type), ← exists_lookup_iff command]
    rfl
  | typed type description optional unbounded =>
    have hname : (typed type description optional unbounded).typeName? = some type := rfl
    rw [valid_name hname, ← exists_lookup_iff command]
    rfl
  | array elements description optional ih =>
    rw [valid_array]
    constructor
    · rintro ⟨t, ht⟩
      obtain ⟨slots, hslots, hlast, hrepeats, -⟩ := convert_array_iff.1 ht
      refine ⟨hlast, hrepeats, fun e he => ?_⟩
      obtain ⟨i, hi, rfl⟩ := List.getElem_of_mem he
      exact (ih _ he).1 ⟨_, List.forall₂_iff_get.1 hslots |>.2 i hi (hslots.length_eq ▸ hi)⟩
    · rintro ⟨hlast, hrepeats, hvalid⟩
      obtain ⟨slots, hslots⟩ := exists_forall₂ fun e he => (ih e he).2 (hvalid e he)
      exact ⟨_, convert_array_iff.2 ⟨slots, hslots, hlast, hrepeats, rfl⟩⟩

/-- The type that it makes has its shape. -/
theorem describes_of_convert {command : String} (d : TypeDescriptor) {t : ValueType}
    (h : d.convert command = .ok t) : d.Describes t := by
  induction d using elements_induction generalizing t with
  | named type =>
    obtain ⟨p, hp, rfl⟩ := lookup_eq_ok_iff.1 h
    exact .named hp
  | typed type description optional unbounded =>
    obtain ⟨p, hp, rfl⟩ := lookup_eq_ok_iff.1 h
    exact .typed hp
  | array elements description optional ih =>
    obtain ⟨slots, hslots, -, -, rfl⟩ := convert_array_iff.1 h
    have hboth := (List.forall₂_and_left _ _).2 ⟨fun e he t ht => ih e he (t := t) ht, hslots⟩
    exact .array (hboth.imp fun e t h => h.1 t h.2)

/-- No part of a described type has more optional slots than slots. -/
theorem Describes.optional_le {d : TypeDescriptor} {t : ValueType} (h : d.Describes t)
    {s : TypeSequence} (hs : (ValueType.expanded s).IsPart t) : s.optional ≤ s.slots.length := by
  induction hs generalizing d with
  | self =>
    cases h with
    | @array elements _ _ slots hslots =>
      have hshort := (List.takeWhile_sublist (l := elements.reverse) isOptional).length_le
      rwa [List.length_reverse, hslots.length_eq] at hshort
  | slot ht _ ih =>
    cases h with
    | array hslots =>
      obtain ⟨i, hi, rfl⟩ := List.getElem_of_mem ht
      exact ih ((List.forall₂_iff_get.1 hslots).2 i (hslots.length_eq ▸ hi) hi)

/-- A descriptor makes a type exactly if it is valid. The type has its shape, with no more optional
slots than slots at any depth, and the number of optional slots is never refused. -/
theorem convert_exact (command : String) (d : TypeDescriptor) :
    ((∃ t, d.convert command = .ok t) ↔ d.Valid) ∧
      (∀ t, d.convert command = .ok t → d.Describes t ∧
        ∀ s, (ValueType.expanded s).IsPart t → s.optional ≤ s.slots.length) ∧
      ∀ c cause, d.convert command ≠ .error (.optionalCount c cause) := by
  refine ⟨exists_convert_iff command d, ?_, d.convert_ne_optionalCount command⟩
  intro t ht
  have hdescribes := describes_of_convert d ht
  exact ⟨hdescribes, fun s hs => hdescribes.optional_le hs⟩

end TypeDescriptor

end Sqf
