import Sqf.Command.Table
import Sqf.Text.Quoted

/-!
# Command descriptors

A descriptor is the written form of a command: its name and, for each way of
using it, what stands to its left and right and what it yields. A type is given
by name, or as an array of elements. Elements at the end of an array may be
optional, and the last one may repeat.

Turning descriptors into signatures can fail; the first fault in reading order
is the one that is reported.
-/

namespace Sqf

/-- The description of an operand, an array element or a result. -/
inductive TypeDescriptor where
  | named (type : String)
  | array (elements : List TypeDescriptor) (description : String) (optional : Bool)
  | typed (type description : String) (optional unbounded : Bool)

/-- One way of using a command. -/
structure Usage where
  left : Option TypeDescriptor
  right : Option TypeDescriptor
  returns : TypeDescriptor

/-- A command and the ways of using it. -/
structure Descriptor where
  name : String
  usages : List Usage

/-- What makes a descriptor unusable. -/
inductive DescriptorFault where
  | unknownType (command type : String)
  | missingRightOperand (command : String)
  | requiredAfterOptional (command : String)
  | unboundedNotLast (command : String)
deriving DecidableEq, Repr

namespace DescriptorFault

open Text (quoted)

def message : DescriptorFault → String
  | unknownType command type =>
    "command " ++ quoted command ++ ": unknown value type " ++ quoted type
  | missingRightOperand command =>
    "command " ++ quoted command ++ ": a syntax with a left operand needs a right operand"
  | requiredAfterOptional command =>
    "command " ++ quoted command ++ ": optional value followed by a required one"
  | unboundedNotLast command =>
    "command " ++ quoted command ++ ": only the last array element may be unbounded"

end DescriptorFault

/-- What stops a type from being made: its descriptor, or a number of optional slots that cannot
be set. -/
inductive TypeFault where
  | descriptor (f : DescriptorFault)
  | optionalCount (command : String) (cause : NegativeCount)
deriving DecidableEq, Repr

def TypeFault.message : TypeFault → String
  | descriptor f => f.message
  | optionalCount command cause => "command " ++ Text.quoted command ++ ": " ++ cause.message

/-! ## Outcomes taken apart -/

section Except

variable {ε α β : Type} {f : α → Except ε β}

theorem exists_of_bind_ok {x : Except ε α} {b : β} (h : x >>= f = .ok b) :
    ∃ a, x = .ok a ∧ f a = .ok b := by
  cases x with
  | error e => cases h
  | ok a => exact ⟨a, rfl, h⟩

theorem bind_eq_ok_iff {x : Except ε α} {b : β} :
    x >>= f = .ok b ↔ ∃ a, x = .ok a ∧ f a = .ok b := by
  constructor
  · exact exists_of_bind_ok
  · rintro ⟨a, rfl, h⟩
    exact h

theorem exists_of_bind_error {x : Except ε α} {e : ε} (h : x >>= f = .error e) :
    x = .error e ∨ ∃ a, x = .ok a ∧ f a = .error e := by
  cases x with
  | error e' =>
    cases h
    exact .inl rfl
  | ok a => exact .inr ⟨a, rfl, h⟩

theorem exists_of_mapM {as : List α} {bs : List β} (h : as.mapM f = .ok bs) :
    ∀ b ∈ bs, ∃ a ∈ as, f a = .ok b := by
  induction as generalizing bs with
  | nil =>
    cases h
    intro b hb
    cases hb
  | cons a as ih =>
    rw [List.mapM_cons] at h
    obtain ⟨b, hb, h⟩ := exists_of_bind_ok h
    obtain ⟨others, hothers, h⟩ := exists_of_bind_ok h
    cases h
    refine List.forall_mem_cons.2 ⟨⟨a, List.mem_cons_self, hb⟩, fun b' hb' => ?_⟩
    obtain ⟨a', ha', hf⟩ := ih hothers b' hb'
    exact ⟨a', List.mem_cons_of_mem _ ha', hf⟩

end Except

/-! ## Types -/

namespace TypeDescriptor

instance : Coe String TypeDescriptor := ⟨named⟩

def isOptional : TypeDescriptor → Bool
  | named _ => false
  | array _ _ optional => optional
  | typed _ _ optional _ => optional

/-- Only an element given with its type can repeat. -/
def isUnbounded : TypeDescriptor → Bool
  | typed _ _ _ unbounded => unbounded
  | _ => false

def description : TypeDescriptor → String
  | named _ => ""
  | array _ description _ => description
  | typed _ description _ _ => description

/-- The type with this name. -/
def lookup (command type : String) : Except TypeFault ValueType :=
  match Primitive.ofSpelling? type with
  | some p => .ok (.primitive p)
  | none => .error (.descriptor (.unknownType command type))

mutual

/-- The type that a descriptor stands for, or what stops it from being made. -/
def convert (command : String) : TypeDescriptor → Except TypeFault ValueType
  | named type => lookup command type
  | typed type _ _ _ => lookup command type
  | array elements _ _ => do
    let s ← toSequence command 0 elements
    return .expanded s

/-- The slots for array elements that follow `optionals` optional ones. Once an element is
optional all later ones are, so the number of optional slots is the number of optional
elements. It is set when all elements have their types. -/
def toSequence (command : String) (optionals : Int) :
    List TypeDescriptor → Except TypeFault TypeSequence
  | [] => (TypeSequence.empty.setOptional optionals).mapError (.optionalCount command)
  | e :: es =>
    if e.isUnbounded && !es.isEmpty then .error (.descriptor (.unboundedNotLast command))
    else if !e.isOptional && optionals > 0 then
      .error (.descriptor (.requiredAfterOptional command))
    else do
      let type ← e.convert command
      let rest ← toSequence command (if e.isOptional then optionals + 1 else optionals) es
      return ⟨type :: rest.slots, e.isUnbounded || rest.unbounded, rest.optional⟩

end

theorem lookup_ne_optionalCount (command type c : String) (cause : NegativeCount) :
    lookup command type ≠ .error (.optionalCount c cause) := by
  unfold lookup
  split <;> rintro ⟨⟩

mutual

theorem convert_ne_optionalCount (command : String) (d : TypeDescriptor) (c : String)
    (cause : NegativeCount) : d.convert command ≠ .error (.optionalCount c cause) := by
  cases d with
  | named type => exact lookup_ne_optionalCount command type c cause
  | typed type description optional unbounded =>
    exact lookup_ne_optionalCount command type c cause
  | array elements description optional =>
    intro h
    rcases exists_of_bind_error h with h | ⟨s, -, h⟩
    · exact toSequence_ne_optionalCount command (Int.le_refl 0) elements c cause h
    · cases h

/-- A count that starts at zero or above stays there, so it can be set. -/
theorem toSequence_ne_optionalCount (command : String) {optionals : Int} (hcount : 0 ≤ optionals)
    (es : List TypeDescriptor) (c : String) (cause : NegativeCount) :
    toSequence command optionals es ≠ .error (.optionalCount c cause) := by
  cases es with
  | nil =>
    cases optionals with
    | ofNat n => rintro ⟨⟩
    | negSucc n => exact absurd hcount (Int.negSucc_not_nonneg n).1
  | cons e es =>
    have hnext : 0 ≤ (if e.isOptional then optionals + 1 else optionals) := by
      split <;> omega
    intro h
    rw [toSequence] at h
    split at h
    · cases h
    · split at h
      · cases h
      · rcases exists_of_bind_error h with h | ⟨type, -, h⟩
        · exact convert_ne_optionalCount command e c cause h
        · rcases exists_of_bind_error h with h | ⟨rest, -, h⟩
          · exact toSequence_ne_optionalCount command hnext es c cause h
          · cases h

end

/-- The type that a descriptor stands for. Only the descriptor can be at fault if there is none,
since a number of optional slots is never below zero. -/
def toType (command : String) (d : TypeDescriptor) : Except DescriptorFault ValueType :=
  match h : d.convert command with
  | .ok type => .ok type
  | .error (.descriptor f) => .error f
  | .error (.optionalCount c cause) => absurd h (d.convert_ne_optionalCount command c cause)

theorem toType_eq_ok_iff {command : String} {d : TypeDescriptor} {t : ValueType} :
    d.toType command = .ok t ↔ d.convert command = .ok t := by
  unfold toType
  split
  · next h => simp [h]
  · next h => simp [h]
  · next c cause h => exact absurd h (d.convert_ne_optionalCount command c cause)

/-- The operand that a descriptor stands for. -/
def toParameter (command : String) (d : TypeDescriptor) : Except DescriptorFault Parameter := do
  let type ← d.toType command
  return ⟨type, d.description, d.isUnbounded⟩

end TypeDescriptor

namespace Usage

/-- Number of operands; one on the left alone makes none. -/
def arity? (u : Usage) : Option Arity :=
  match u.left, u.right with
  | none, none => some .nular
  | none, some _ => some .unary
  | some _, some _ => some .binary
  | some _, none => none

/-- The overload of `command` that a usage describes. -/
def toSignature (command : String) (u : Usage) : Except DescriptorFault Signature :=
  match u.arity? with
  | none => .error (.missingRightOperand command)
  | some arity => do
    let left ← u.left.mapM (TypeDescriptor.toParameter command)
    let right ← u.right.mapM (TypeDescriptor.toParameter command)
    let returns ← u.returns.toType command
    return ⟨command, arity, left, right, returns⟩

end Usage

namespace Descriptor

/-- The overloads of a command, one for each usage. -/
def toSignatures (d : Descriptor) : Except DescriptorFault (List Signature) :=
  d.usages.mapM (Usage.toSignature d.name)

end Descriptor

/-- The table of the commands described, in order. -/
def Table.ofDescriptors (ds : List Descriptor) : Except DescriptorFault Table := do
  let signatures ← ds.mapM Descriptor.toSignatures
  return .ofSignatures signatures.flatten

/-- A loaded table holds what its descriptors declare. -/
theorem Table.exists_of_ofDescriptors {ds : List Descriptor} {t : Table}
    (h : Table.ofDescriptors ds = .ok t) :
    ∃ usages, ds.mapM Descriptor.toSignatures = .ok usages ∧ t.signatures = usages.flatten := by
  obtain ⟨usages, husages, h⟩ := bind_eq_ok_iff.1 h
  cases h
  exact ⟨usages, husages, Table.signatures_ofSignatures _⟩

end Sqf
