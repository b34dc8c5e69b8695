import Mathlib.Data.List.Forall2
import Sqf.Command.DescriptorReader
import Sqf.Proofs.Command.Validation

/-!
# Markers in the text of descriptors

Each type in a JSON list of descriptors makes a type of the table, which has its place among those
of the table. An array has a last slot that repeats exactly if its last element is marked so and is
read by the name of its type: an element that is read as an array itself has no such marker, and
what stands there is passed over (`unbounded_iff_marked`).
-/

namespace Sqf

/-! ## Places -/

section Places

variable {α β : Type}

/-- What stands at a place: the root with an index, then children inside of each other. -/
def childAt? (children : α → Option (List α)) : List α → Nat → List Nat → Option α
  | roots, i, [] => roots[i]?
  | roots, i, j :: path =>
    (roots[i]?.bind children).bind fun as => childAt? children as j path

/-- Where the children of related entries are related, so is what stands at the same place. -/
theorem exists_childAt? {R : α → β → Prop} {f : α → Option (List α)} {g : β → Option (List β)}
    (hchildren : ∀ a b as, R a b → f a = some as → ∃ bs, g b = some bs ∧ List.Forall₂ R as bs)
    {path : List Nat} {as : List α} {bs : List β} (h : List.Forall₂ R as bs) {i : Nat} {a : α}
    (ha : childAt? f as i path = some a) : ∃ b, childAt? g bs i path = some b ∧ R a b := by
  have hroot {i : Nat} {as : List α} {bs : List β} (h : List.Forall₂ R as bs) {a : α}
      (ha : as[i]? = some a) : ∃ b, bs[i]? = some b ∧ R a b := by
    obtain ⟨hi, rfl⟩ := List.getElem?_eq_some_iff.1 ha
    have hi' : i < bs.length := h.length_eq ▸ hi
    exact ⟨bs[i], List.getElem?_eq_getElem hi', (List.forall₂_iff_get.1 h).2 i hi hi'⟩
  -- Induction on the path, from the roots down.
  induction path generalizing as bs i with
  | nil => exact hroot h ha
  | cons j path ih =>
    obtain ⟨inner, hinner, ha⟩ := Option.bind_eq_some_iff.1 ha
    obtain ⟨root, hi, hinner⟩ := Option.bind_eq_some_iff.1 hinner
    obtain ⟨root', hi', hrelated⟩ := hroot h hi
    obtain ⟨inner', hinner', hall⟩ := hchildren root root' inner hrelated hinner
    obtain ⟨b, hb, hab⟩ := ih hall ha
    refine ⟨b, ?_, hab⟩
    rw [childAt?, hi', Option.bind_some, hinner', Option.bind_some]
    exact hb

end Places

/-! ## Types in a text -/

namespace Json

/-- The values in an array. -/
def items (value : Json) : List Json := value.asArray?.getD []

def isNull : Json → Bool
  | null => true
  | _ => false

/-- The elements of a type that is read as an array. -/
def elements? (value : Json) : Option (List Json) :=
  match value, TypeDescriptor.ofJson? value with
  | object members, some (.array _ _ _) => (members.lookup (some "array")).map items
  | _, _ => none

/-- Whether the value is an object that says of itself that it is unbounded. -/
def isMarked : Json → Bool
  | object members =>
    members.any fun member => member.1 == some "unbounded" && member.2.asBool? == some true
  | _ => false

/-- The types of a usage that are given: its operands and its result. -/
def usageTypes : Json → List Json
  | object members =>
    (["left", "right", "returns"].filterMap fun key => members.lookup (some key)).filter (!·.isNull)
  | array values => values.filter (!·.isNull)
  | _ => []

/-- The usages of a descriptor. -/
def usages : Json → List Json
  | object members => ((members.lookup (some "syntaxes")).map items).getD []
  | array [_, usages] => usages.items
  | _ => []

/-- The types in a list of descriptors, in order. -/
def describedTypes (descriptors : Json) : List Json :=
  descriptors.items.flatMap fun d => d.usages.flatMap usageTypes

end Json

def ValueType.slots? : ValueType → Option (List ValueType)
  | .primitive _ => none
  | .expanded s => some s.slots

/-- The types of the operands and of the result. -/
def Signature.types (s : Signature) : List ValueType := s.parameters.map (·.type) ++ [s.returns]

/-- The types of all signatures, in order. -/
def Table.types (t : Table) : List ValueType := t.signatures.flatMap Signature.types


/-! ## Members -/

namespace Json

section Members

variable {α : Type} {members : List (Option String × Json)} {key : String}

/-- A member that occurs once is the one that is looked up. -/
theorem lookup_of_field? {o : Option Json} (h : field? members key = some o) :
    members.lookup (some key) = o := by
  -- A look-up gives the first member of the name, and there is no other one.
  have hfirst : members.lookup (some key) =
      ((members.filter fun member => member.1 == some key).head?).map Prod.snd := by
    clear h
    induction members with
    | nil => rfl
    | cons member members ih =>
      rw [List.lookup_cons, List.filter_cons, BEq.comm]
      split
      · next hkey => simp [hkey]
      · next hkey => simp [hkey, ih]
  rw [hfirst]
  unfold field? at h
  split at h
  · next hnone =>
    cases h
    simp [hnone]
  · next hone =>
    cases h
    simp [hone]
  · cases h

/-- A member that may be missing is read, or has its default. -/
theorem fieldOr?_eq_some_iff {default a : α} {read? : Json → Option α} :
    fieldOr? members key default read? = some a ↔
      ∃ o, field? members key = some o ∧ o.elim (some default) read? = some a := by
  unfold fieldOr?
  cases field? members key with
  | none => simp
  | some o => cases o <;> simp

/-- A member that is required is there and is read. -/
theorem require?_eq_some_iff {a : α} {read? : Json → Option α} :
    require? members key read? = some a ↔
      ∃ value, field? members key = some (some value) ∧ read? value = some a := by
  unfold require?
  cases field? members key with
  | none => simp
  | some o => cases o <;> simp

/-- A marker that is read is the only one. -/
theorem isMarked_eq {unbounded : Bool}
    (h : fieldOr? members "unbounded" false asBool? = some unbounded) :
    (object members).isMarked = unbounded := by
  have hfilter : (object members).isMarked =
      (members.filter fun member => member.1 == some "unbounded").any
        fun member => member.2.asBool? == some true := by
    rw [isMarked, List.any_filter]
  -- The member occurs once or not at all; otherwise nothing would have been read.
  obtain ⟨o, ho, hread⟩ := fieldOr?_eq_some_iff.1 h
  rw [hfilter]
  unfold field? at ho
  split at ho
  · next hnone =>
    cases ho
    simp [hnone] at hread ⊢
    exact hread
  · next hone =>
    cases ho
    simp [hone] at hread ⊢
    simp [hread]
  · cases ho

end Members

end Json

/-! ## Reading a type -/

namespace TypeDescriptor

open Json (fieldOr? field? asBool? isMarked elements?)

/-- The value is read as this descriptor of a type. -/
abbrev IsRead (value : Json) (d : TypeDescriptor) : Prop := ofJson? value = some d

theorem forall₂_of_listOf? {items : List Json} {ds : List TypeDescriptor}
    (h : listOf? items = some ds) : List.Forall₂ IsRead items ds := by
  induction items generalizing ds with
  | nil =>
    cases h
    exact .nil
  | cons item items ih =>
    rw [listOf?] at h
    obtain ⟨d, hd, h⟩ := Option.bind_eq_some_iff.1 h
    obtain ⟨others, hothers, h⟩ := Option.bind_eq_some_iff.1 h
    cases h
    exact .cons hd (ih hothers)

/-- The elements of an array are read from its member of that name. -/
theorem lookup_of_arrayMember? {members : List (Option String × Json)} {ds : List TypeDescriptor}
    (h : arrayMember? members = some ds) :
    ∃ items, members.lookup (some "array") = some (.array items) ∧ listOf? items = some ds := by
  induction members with
  | nil => cases h
  | cons member members ih =>
    obtain ⟨key, value⟩ := member
    rw [arrayMember?] at h
    rw [List.lookup_cons, BEq.comm]
    split at h
    · next hkey =>
      split at h
      · cases h
      · cases value with
        | array items => exact ⟨items, by simp [hkey], h⟩
        | _ => cases h
    · next hkey =>
      obtain ⟨items, hitems, hds⟩ := ih h
      exact ⟨items, by simp [hkey, hitems], hds⟩

/-- What an object can be read as. -/
theorem ofJson?_object {members : List (Option String × Json)} {d : TypeDescriptor}
    (h : ofJson? (.object members) = some d) :
    (∃ elements description optional, d = .array elements description optional ∧
      arrayMember? members = some elements) ∨
    ∃ type description optional unbounded, d = .typed type description optional unbounded ∧
      fieldOr? members "unbounded" false asBool? = some unbounded := by
  rw [ofJson?] at h
  rcases Option.or_eq_some_iff.1 h with h | ⟨-, h⟩
  · obtain ⟨elements, helements, h⟩ := Option.bind_eq_some_iff.1 h
    obtain ⟨description, -, h⟩ := Option.bind_eq_some_iff.1 h
    obtain ⟨optional, -, h⟩ := Option.bind_eq_some_iff.1 h
    cases h
    exact .inl ⟨elements, description, optional, rfl, helements⟩
  · obtain ⟨type, -, h⟩ := Option.bind_eq_some_iff.1 h
    obtain ⟨description, -, h⟩ := Option.bind_eq_some_iff.1 h
    obtain ⟨optional, -, h⟩ := Option.bind_eq_some_iff.1 h
    obtain ⟨unbounded, hunbounded, h⟩ := Option.bind_eq_some_iff.1 h
    cases h
    exact .inr ⟨type, description, optional, unbounded, rfl, hunbounded⟩

/-- The elements that are read as such are those of the array. -/
theorem exists_of_elements? {value : Json} {items : List Json}
    (h : value.elements? = some items) : ∃ ds description optional,
      ofJson? value = some (.array ds description optional) ∧
        List.Forall₂ IsRead items ds := by
  unfold elements? at h
  split at h
  · next members ds description optional hread =>
    rcases ofJson?_object hread with ⟨_, _, _, ⟨⟩, hmember⟩ | ⟨_, _, _, _, ⟨⟩, -⟩
    obtain ⟨inner, hlookup, hds⟩ := lookup_of_arrayMember? hmember
    rw [hlookup] at h
    cases h
    exact ⟨ds, description, optional, hread, forall₂_of_listOf? hds⟩
  · cases h

/-- An element repeats exactly if it is marked and is not read as an array. -/
theorem isUnbounded_iff {value : Json} {d : TypeDescriptor} (h : ofJson? value = some d) :
    d.isUnbounded = true ↔ value.isMarked = true ∧ value.elements? = none := by
  cases value with
  | object members =>
    rcases ofJson?_object h with ⟨ds, description, optional, rfl, hmember⟩ |
      ⟨type, description, optional, unbounded, rfl, hunbounded⟩
    · obtain ⟨items, hlookup, -⟩ := lookup_of_arrayMember? hmember
      simp [isUnbounded, elements?, h, hlookup]
    · simp [isUnbounded, elements?, h, Json.isMarked_eq hunbounded]
  | text value =>
    obtain ⟨type, -, rfl⟩ := Option.map_eq_some_iff.1 h
    simp [isUnbounded, isMarked]
  | _ => cases h

end TypeDescriptor

/-! ## From the text to the table -/

section Outcomes

variable {α β γ : Type} {as : List α} {bs : List β} {cs : List γ}

theorem forall₂_of_mapM_some {f : α → Option β} (h : as.mapM f = some bs) :
    List.Forall₂ (fun a b => f a = some b) as bs := by
  induction as generalizing bs with
  | nil =>
    cases h
    exact .nil
  | cons a as ih =>
    rw [List.mapM_cons] at h
    obtain ⟨b, hb, h⟩ := Option.bind_eq_some_iff.1 h
    obtain ⟨others, hothers, h⟩ := Option.bind_eq_some_iff.1 h
    cases h
    exact .cons hb (ih hothers)

theorem forall₂_of_mapM_ok {ε : Type} {f : α → Except ε β} (h : as.mapM f = .ok bs) :
    List.Forall₂ (fun a b => f a = .ok b) as bs := by
  induction as generalizing bs with
  | nil =>
    cases h
    exact .nil
  | cons a as ih =>
    rw [List.mapM_cons] at h
    obtain ⟨b, hb, h⟩ := bind_eq_ok_iff.1 h
    obtain ⟨others, hothers, h⟩ := bind_eq_ok_iff.1 h
    cases h
    exact .cons hb (ih hothers)

theorem forall₂_comp {R : α → β → Prop} {S : β → γ → Prop} (h : List.Forall₂ R as bs)
    (h' : List.Forall₂ S bs cs) : List.Forall₂ (fun a c => ∃ b, R a b ∧ S b c) as cs := by
  induction h generalizing cs with
  | nil =>
    cases h'
    exact .nil
  | cons hab _ ih =>
    cases h' with
    | cons hbc h' => exact .cons ⟨_, hab, hbc⟩ (ih h')

theorem eq_ok_of_toOption {ε : Type} {x : Except ε α} {a : α} (h : x.toOption = some a) :
    x = .ok a := by
  cases x with
  | error e => cases h
  | ok b => exact congrArg Except.ok (Option.some.inj h)

theorem rel_getLast? {R : α → β → Prop} (h : List.Forall₂ R as bs) :
    Option.Rel R as.getLast? bs.getLast? := by
  induction h with
  | nil => exact .none
  | @cons a b as bs hab _ ih =>
    rw [List.getLast?_cons, List.getLast?_cons]
    refine .some ?_
    generalize as.getLast? = x, bs.getLast? = y at ih
    cases ih with
    | none => exact hab
    | some hlast => exact hlast

end Outcomes

/-- The value is read as a descriptor of the type. -/
def Json.Spells (value : Json) (t : ValueType) : Prop :=
  ∃ command d, TypeDescriptor.ofJson? value = some d ∧ d.convert command = .ok t

namespace TypeDescriptor

theorem ofJson?_of_ofMember? {value : Json} {d : TypeDescriptor} (h : ofMember? value = some d) :
    ofJson? value = some d := by
  unfold ofMember? at h
  split at h
  · exact h
  · cases h

/-- An operand stands for itself unless it is `null`. -/
theorem forall₂_of_ofOperand? {value : Json} {operand : Option TypeDescriptor}
    (h : ofOperand? value = some operand) :
    List.Forall₂ IsRead ([value].filter (!·.isNull)) operand.toList := by
  cases value with
  | null =>
    cases h
    exact .nil
  | _ =>
    simp only [ofOperand?] at h
    obtain ⟨d, hd, rfl⟩ := Option.map_eq_some_iff.1 h
    exact .cons (ofJson?_of_ofMember? hd) .nil

/-- An operand that may be left out. -/
theorem forall₂_of_field {o : Option Json} {operand : Option TypeDescriptor}
    (h : o.elim (some none) ofOperand? = some operand) :
    List.Forall₂ IsRead (o.toList.filter (!·.isNull)) operand.toList := by
  cases o with
  | none =>
    cases h
    exact .nil
  | some value => exact forall₂_of_ofOperand? h

theorem isNull_of_ofMember? {value : Json} {d : TypeDescriptor} (h : ofMember? value = some d) :
    value.isNull = false := by
  cases value with
  | null => cases h
  | _ => rfl

theorem convert_of_toParameter {command : String} {d : TypeDescriptor} {p : Parameter}
    (h : d.toParameter command = .ok p) : d.convert command = .ok p.type := by
  obtain ⟨t, ht, h⟩ := bind_eq_ok_iff.1 h
  cases h
  exact toType_eq_ok_iff.1 ht

theorem forall₂_of_toParameter {command : String} {operand : Option TypeDescriptor}
    {p : Option Parameter} (h : operand.mapM (toParameter command) = .ok p) :
    List.Forall₂ (fun d t => d.convert command = .ok t) operand.toList
      (p.toList.map (·.type)) := by
  cases operand with
  | none =>
    cases h
    exact .nil
  | some d =>
    obtain ⟨p, hp, h⟩ := bind_eq_ok_iff.1 h
    cases h
    exact .cons (convert_of_toParameter hp) .nil

end TypeDescriptor

namespace Usage

open TypeDescriptor (IsRead)

/-- The types that are given, from left to right. -/
def types (u : Usage) : List TypeDescriptor := u.left.toList ++ u.right.toList ++ [u.returns]

/-- Both operands, where they are given, and the result. -/
theorem forall₂_types {left right : List Json} {returns : Json} {l r : Option TypeDescriptor}
    {d : TypeDescriptor} (hl : List.Forall₂ IsRead (left.filter (!·.isNull)) l.toList)
    (hr : List.Forall₂ IsRead (right.filter (!·.isNull)) r.toList)
    (hd : TypeDescriptor.ofMember? returns = some d) :
    List.Forall₂ IsRead ((left ++ right ++ [returns]).filter (!·.isNull))
      (Usage.types ⟨l, r, d⟩) := by
  have hreturns : [returns].filter (!·.isNull) = [returns] := by
    simp [TypeDescriptor.isNull_of_ofMember? hd]
  rw [List.filter_append, List.filter_append, hreturns]
  exact List.rel_append (List.rel_append hl hr)
    (.cons (TypeDescriptor.ofJson?_of_ofMember? hd) .nil)

/-- The types of a usage are read one by one. -/
theorem forall₂_of_ofJson? {value : Json} {u : Usage} (h : ofJson? value = some u) :
    List.Forall₂ IsRead value.usageTypes u.types := by
  unfold ofJson? at h
  split at h
  · next members =>
    obtain ⟨-, -, h⟩ := Option.bind_eq_some_iff.1 h
    obtain ⟨l, hl, h⟩ := Option.bind_eq_some_iff.1 h
    obtain ⟨r, hr, h⟩ := Option.bind_eq_some_iff.1 h
    obtain ⟨d, hd, h⟩ := Option.bind_eq_some_iff.1 h
    cases h
    obtain ⟨left, hleft, hl⟩ := Json.fieldOr?_eq_some_iff.1 hl
    obtain ⟨right, hright, hr⟩ := Json.fieldOr?_eq_some_iff.1 hr
    obtain ⟨returns, hreturns, hd⟩ := Json.require?_eq_some_iff.1 hd
    -- An operand that is missing, or null, stands for none.
    have hmembers : ["left", "right", "returns"].filterMap
        (fun key => members.lookup (some key)) = left.toList ++ right.toList ++ [returns] := by
      simp only [List.filterMap_cons, List.filterMap_nil, Json.lookup_of_field? hleft,
        Json.lookup_of_field? hright, Json.lookup_of_field? hreturns]
      cases left <;> cases right <;> rfl
    rw [Json.usageTypes, hmembers]
    exact forall₂_types (TypeDescriptor.forall₂_of_field hl) (TypeDescriptor.forall₂_of_field hr) hd
  · next left right returns =>
    obtain ⟨l, hl, h⟩ := Option.bind_eq_some_iff.1 h
    obtain ⟨r, hr, h⟩ := Option.bind_eq_some_iff.1 h
    obtain ⟨d, hd, h⟩ := Option.bind_eq_some_iff.1 h
    cases h
    exact forall₂_types (TypeDescriptor.forall₂_of_ofOperand? hl)
      (TypeDescriptor.forall₂_of_ofOperand? hr) hd
  · cases h

/-- Each type that was read makes one of the signature. -/
theorem forall₂_of_toSignature {command : String} {u : Usage} {s : Signature}
    (h : u.toSignature command = .ok s) :
    List.Forall₂ (fun d t => d.convert command = .ok t) u.types s.types := by
  unfold toSignature at h
  split at h
  · cases h
  · obtain ⟨left, hleft, h⟩ := bind_eq_ok_iff.1 h
    obtain ⟨right, hright, h⟩ := bind_eq_ok_iff.1 h
    obtain ⟨returns, hreturns, h⟩ := bind_eq_ok_iff.1 h
    cases h
    rw [Signature.types, Signature.parameters, List.map_append, types]
    have hoperands := List.rel_append (TypeDescriptor.forall₂_of_toParameter hleft)
      (TypeDescriptor.forall₂_of_toParameter hright)
    exact List.rel_append hoperands (.cons (TypeDescriptor.toType_eq_ok_iff.1 hreturns) .nil)

end Usage

/-- The types of a descriptor make those of its signatures. -/
theorem Descriptor.forall₂_spells {value : Json} {d : Descriptor} {ss : List Signature}
    (h : ofJson? value = some d) (hss : d.toSignatures = .ok ss) :
    List.Forall₂ Json.Spells (value.usages.flatMap Json.usageTypes)
      (ss.flatMap Signature.types) := by
  -- Both forms of a descriptor have their usages in a list.
  have husages {usages : Json} {us : List Usage} (hus : usagesOf? usages = some us) :
      List.Forall₂ (fun v u => Usage.ofJson? v = some u) usages.items us := by
    obtain ⟨values, hvalues, hus⟩ := Option.bind_eq_some_iff.1 hus
    rw [Json.items, hvalues]
    exact forall₂_of_mapM_some hus
  have hread : List.Forall₂ (fun v u => Usage.ofJson? v = some u) value.usages d.usages := by
    unfold ofJson? at h
    split at h
    · next members =>
      obtain ⟨-, -, h⟩ := Option.bind_eq_some_iff.1 h
      obtain ⟨name, -, h⟩ := Option.bind_eq_some_iff.1 h
      obtain ⟨us, hus, h⟩ := Option.bind_eq_some_iff.1 h
      cases h
      obtain ⟨usages, hmember, hus⟩ := Json.require?_eq_some_iff.1 hus
      rw [Json.usages, Json.lookup_of_field? hmember]
      exact husages hus
    · obtain ⟨name, -, h⟩ := Option.bind_eq_some_iff.1 h
      obtain ⟨us, hus, h⟩ := Option.bind_eq_some_iff.1 h
      cases h
      exact husages hus
    · cases h
  refine List.rel_flatMap (forall₂_comp hread (forall₂_of_mapM_ok hss)) ?_
  rintro usage s ⟨u, hu, hs⟩
  refine (forall₂_comp (Usage.forall₂_of_ofJson? hu) (Usage.forall₂_of_toSignature hs)).imp ?_
  rintro v t ⟨d', hd', ht⟩
  exact ⟨d.name, d', hd', ht⟩

/-- The types in a text make those of the table. -/
theorem Table.forall₂_spells {source : String} {table : Table} (h : ofJson source = .ok table) :
    ∃ descriptors, Json.read? source = some descriptors ∧
      List.Forall₂ Json.Spells descriptors.describedTypes table.types := by
  unfold ofJson at h
  split at h
  · cases h
  · next ds hds =>
    split at h
    · next t ht =>
      cases h
      obtain ⟨descriptors, hread, hds⟩ := Option.bind_eq_some_iff.1 hds
      obtain ⟨values, hvalues, hds⟩ := Option.bind_eq_some_iff.1 hds
      obtain ⟨sss, hsss, hsignatures⟩ := exists_of_ofDescriptors ht
      refine ⟨descriptors, hread, ?_⟩
      -- The types of the table come command by command, as they are described.
      rw [Json.describedTypes, Json.items, hvalues, types, hsignatures, List.flatten_eq_flatMap,
        List.flatMap_assoc]
      refine List.rel_flatMap (forall₂_comp (forall₂_of_mapM_some hds) (forall₂_of_mapM_ok hsss)) ?_
      rintro value ss ⟨d, hd, hss⟩
      exact Descriptor.forall₂_spells hd hss
    · cases h

/-- The elements of an array make the slots of its type, the last of which repeats exactly if it is
marked and is not read as an array. -/
theorem Json.Spells.array {value : Json} {items : List Json} {t : ValueType} (h : value.Spells t)
    (hitems : value.elements? = some items) : ∃ s, t = .expanded s ∧
      List.Forall₂ Json.Spells items s.slots ∧
      (s.unbounded = true ↔
        ∃ last, items.getLast? = some last ∧ last.isMarked = true ∧ last.elements? = none) := by
  obtain ⟨command, d, hd, ht⟩ := h
  obtain ⟨ds, description, optional, hread, hds⟩ := TypeDescriptor.exists_of_elements? hitems
  cases hd.symm.trans hread
  obtain ⟨slots, hslots, -, -, rfl⟩ := TypeDescriptor.convert_array_iff.1 ht
  have hspells : List.Forall₂ Json.Spells items slots := by
    refine (forall₂_comp hds hslots).imp ?_
    rintro v t ⟨d, hd, ht⟩
    exact ⟨command, d, hd, ht⟩
  refine ⟨_, rfl, hspells, ?_⟩
  have hlast := rel_getLast? hds
  show ds.getLast?.any TypeDescriptor.isUnbounded = true ↔ _
  generalize items.getLast? = value, ds.getLast? = d at hlast ⊢
  cases hlast with
  | none => simp
  | some hd => simpa using TypeDescriptor.isUnbounded_iff hd

/-- Wherever an array stands in a text that is loaded, a type with a slot for each element stands in
the table. It repeats exactly if the last element is marked and is not an array itself. -/
theorem unbounded_iff_marked {source : String} {table : Table}
    (h : Table.ofJson source = .ok table) :
    ∃ descriptors, Json.read? source = some descriptors ∧
      ∀ i path value items,
        childAt? Json.elements? descriptors.describedTypes i path = some value →
        value.elements? = some items →
        ∃ s, childAt? ValueType.slots? table.types i path = some (.expanded s) ∧
          s.slots.length = items.length ∧
          (s.unbounded = true ↔
            ∃ last, items.getLast? = some last ∧ last.isMarked = true ∧ last.elements? = none) := by
  obtain ⟨descriptors, hread, htypes⟩ := Table.forall₂_spells h
  refine ⟨descriptors, hread, fun i path value items hvalue hitems => ?_⟩
  have hchildren (v : Json) (t : ValueType) (vs : List Json) (hv : v.Spells t)
      (hvs : v.elements? = some vs) :
      ∃ ts, t.slots? = some ts ∧ List.Forall₂ Json.Spells vs ts := by
    obtain ⟨s, rfl, hslots, -⟩ := hv.array hvs
    exact ⟨s.slots, rfl, hslots⟩
  obtain ⟨t, ht, hspells⟩ := exists_childAt? hchildren htypes hvalue
  obtain ⟨s, rfl, hslots, hunbounded⟩ := hspells.array hitems
  exact ⟨s, ht, hslots.length_eq.symm, hunbounded⟩

/-- A command whose operand is an array of a string and of this element. -/
def commandOn (element : String) : String :=
  "[\x7b\"name\":\"foo\",\"syntaxes\":[\x7b\"right\":\x7b\"array\":[\"String\"," ++ element ++
    "]\x7d,\"returns\":\"Nothing\"\x7d]\x7d]"

/-- A marked element that is given by the name of its type. -/
def markedType : String := "\x7b\"type\":\"Number\",\"unbounded\":true\x7d"

/-- A marked element that is an array. -/
def markedArray : String := "\x7b\"array\":[\"Number\"],\"unbounded\":true\x7d"

/-- An element that is given by the name of its type keeps its marker. -/
theorem unbounded_iff_marked_type :
    ∃ table, Table.ofJson (commandOn markedType) = .ok table ∧
      ∃ s, table.types[0]? = some (.expanded s) ∧ s.slots.length = 2 ∧ s.unbounded = true := by
  have hloaded : (Table.ofJson (commandOn markedType)).toOption.isSome = true := by
    decide +kernel
  -- What the text says is decided by reading it; what the table makes of it follows from the
  -- theorem.
  have htext : (Json.read? (commandOn markedType)).any (fun descriptors =>
      descriptors.describedTypes[0]?.any fun value => value.elements?.any fun items =>
        items.length == 2 && items.getLast?.any fun last =>
          last.isMarked && last.elements?.isNone) = true := by
    decide +kernel
  obtain ⟨table, htable⟩ := Option.isSome_iff_exists.1 hloaded
  obtain ⟨descriptors, hread, h⟩ := unbounded_iff_marked (eq_ok_of_toOption htable)
  rw [hread] at htext
  simp only [Option.any_eq_true, Bool.and_eq_true, beq_iff_eq, Option.isNone_iff_eq_none] at htext
  obtain ⟨_, ⟨⟩, value, hvalue, items, hitems, hlength, hlast⟩ := htext
  obtain ⟨s, hs, hslots, hunbounded⟩ := h 0 [] value items hvalue hitems
  exact ⟨table, eq_ok_of_toOption htable, s, hs, hslots.trans hlength, hunbounded.2 hlast⟩

/-- The marker of an element that is an array is passed over: no slot of the operand repeats. -/
theorem marked_array_bounded :
    ∃ descriptors table, Json.read? (commandOn markedArray) = some descriptors ∧
      Table.ofJson (commandOn markedArray) = .ok table ∧
      (∃ value items last, descriptors.describedTypes[0]? = some value ∧
        value.elements? = some items ∧ items.getLast? = some last ∧ last.isMarked = true) ∧
      ∃ s, table.types[0]? = some (.expanded s) ∧ s.slots.length = 2 ∧ s.unbounded = false := by
  have htext : (Json.read? (commandOn markedArray)).any (fun descriptors =>
      descriptors.describedTypes[0]?.any fun value => value.elements?.any fun items =>
        items.getLast?.any Json.isMarked) = true := by
    decide +kernel
  have htable : (Table.ofJson (commandOn markedArray)).toOption.any (fun table =>
      table.types[0]?.any fun t =>
        t.slots?.any (·.length == 2) && !t.sequence.unbounded) = true := by
    decide +kernel
  simp only [Option.any_eq_true, Bool.and_eq_true, beq_iff_eq, Bool.not_eq_true'] at htext htable
  obtain ⟨descriptors, hread, value, hvalue, items, hitems, last, hlast, hmarked⟩ := htext
  obtain ⟨table, hloaded, t, ht, ⟨slots, hslots, hlength⟩, hbounded⟩ := htable
  refine ⟨descriptors, table, hread, eq_ok_of_toOption hloaded,
    ⟨value, items, last, hvalue, hitems, hlast, hmarked⟩, ?_⟩
  cases t with
  | primitive p => cases hslots
  | expanded s =>
    cases hslots
    exact ⟨s, ht, hlength, hbounded⟩

end Sqf
