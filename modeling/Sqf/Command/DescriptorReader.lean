import Sqf.Command.Descriptor
import Sqf.Json.Content
import Sqf.Json.Reader

/-!
# Descriptors in JSON

Descriptors come as a JSON list. A descriptor and a usage are objects with
known members, or arrays of the members' values in order; unknown members are
passed over, known ones may not be repeated. A type is a string, an object with
an `array` of types, or an object with the name of a `type`: the first of the
three that fits. An object can be both, and one that fails as an array may
still be read by its type name.
-/

namespace Sqf

namespace TypeDescriptor

mutual

/-- Reads a type. -/
def ofJson? : Json → Option TypeDescriptor
  | .text value => value.map named
  | .object members =>
    (arrayMember? members).bind (fun elements => do
      let description ← Json.fieldOr? members "desc" "" Json.asText?
      let optional ← Json.fieldOr? members "optional" false Json.asBool?
      return array elements description optional) |>.or do
    let type ← Json.require? members "type" Json.asText?
    let description ← Json.fieldOr? members "desc" "" Json.asText?
    let optional ← Json.fieldOr? members "optional" false Json.asBool?
    let unbounded ← Json.fieldOr? members "unbounded" false Json.asBool?
    return typed type description optional unbounded
  | _ => none

/-- The elements of the only member called `array`. -/
def arrayMember? : List (Option String × Json) → Option (List TypeDescriptor)
  | [] => none
  | (key, value) :: members =>
    if key == some "array" then
      if members.any (·.1 == some "array") then none else elementsOf? value
    else arrayMember? members

/-- The types in a JSON array. -/
def elementsOf? : Json → Option (List TypeDescriptor)
  | .array items => listOf? items
  | _ => none

def listOf? : List Json → Option (List TypeDescriptor)
  | [] => some []
  | item :: items => do
    let element ← ofJson? item
    let elements ← listOf? items
    return element :: elements

end

/-- How deeply a type may be nested: types stand within four levels of lists and objects,
and there are at most 127 levels in all. -/
def maxDepth : Nat := 123

/-- Reads a type of a usage. All of it has to be representable, unknown members too. -/
def ofMember? (value : Json) : Option TypeDescriptor :=
  if value.depth ≤ maxDepth && value.isRepresentable then ofJson? value else none

/-- Reads an operand, where `null` stands for none. -/
def ofOperand? : Json → Option (Option TypeDescriptor)
  | .null => some none
  | value => (ofMember? value).map some

end TypeDescriptor

namespace Usage

def ofJson? : Json → Option Usage
  | .object members => do
    guard (Json.keysAreText members)
    let left ← Json.fieldOr? members "left" none TypeDescriptor.ofOperand?
    let right ← Json.fieldOr? members "right" none TypeDescriptor.ofOperand?
    let returns ← Json.require? members "returns" TypeDescriptor.ofMember?
    return ⟨left, right, returns⟩
  | .array [left, right, returns] => do
    let left ← TypeDescriptor.ofOperand? left
    let right ← TypeDescriptor.ofOperand? right
    let returns ← TypeDescriptor.ofMember? returns
    return ⟨left, right, returns⟩
  | _ => none

end Usage

namespace Descriptor

/-- The usages in a JSON array. -/
def usagesOf? (value : Json) : Option (List Usage) := value.asArray?.bind (·.mapM Usage.ofJson?)

def ofJson? : Json → Option Descriptor
  | .object members => do
    guard (Json.keysAreText members)
    let name ← Json.require? members "name" Json.asText?
    let usages ← Json.require? members "syntaxes" usagesOf?
    return ⟨name, usages⟩
  | .array [name, usages] => do
    let name ← name.asText?
    let usages ← usagesOf? usages
    return ⟨name, usages⟩
  | _ => none

/-- The descriptors in a JSON text. -/
def readAll? (source : String) : Option (List Descriptor) := do
  let value ← Json.read? source
  let items ← value.asArray?
  items.mapM ofJson?

end Descriptor

/-- Why descriptors in JSON make no table. -/
inductive DescriptorError where
  /-- The text is not JSON, or not a list of descriptors. -/
  | malformed
  | fault (f : DescriptorFault)
deriving DecidableEq, Repr

/-- The table of the commands that a JSON text describes. -/
def Table.ofJson (source : String) : Except DescriptorError Table :=
  match Descriptor.readAll? source with
  | none => .error .malformed
  | some ds =>
    match Table.ofDescriptors ds with
    | .ok table => .ok table
    | .error f => .error (.fault f)

end Sqf
