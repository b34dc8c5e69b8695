/-!
# Value types

What kind of value an expression yields and what a command takes. A type is
either primitive, or a sequence of types: the types of an array's elements by
position, of which the last ones may be optional and the very last may repeat.

Equality is looser than identity. Two sequences are the same whatever their
optional counts are, a sequence of one slot is the same as that slot alone, and
one without slots is the same as the primitive type of arrays.
-/

namespace Sqf

/-- The types without parts of their own. Positions and colours are primitive, but stand
for arrays of numbers. -/
inductive Primitive where
  | number
  | string
  | boolean
  | object
  | array
  | code
  | nothing
  | any
  | side
  | group
  | config
  | control
  | display
  | nameSpace
  | location
  | script
  | structuredText
  | task
  | teamMember
  | hashMap
  | position2D
  | position3D
  | colorRgb
  | colorRgba
deriving DecidableEq, Inhabited, Repr

namespace Primitive

/-- The name shown in messages. -/
def displayName : Primitive → String
  | number => "Number"
  | string => "String"
  | boolean => "Boolean"
  | object => "Object"
  | array => "Array"
  | code => "Code"
  | nothing => "Nothing"
  | any => "Anything"
  | side => "Side"
  | group => "Group"
  | config => "Config"
  | control => "Control"
  | display => "Display"
  | nameSpace => "Namespace"
  | location => "Location"
  | script => "Script"
  | structuredText => "Structured Text"
  | task => "Task"
  | teamMember => "Team Member"
  | hashMap => "HashMap"
  | position2D => "Position 2D"
  | position3D => "Position 3D"
  | colorRgb => "Color RGB"
  | colorRgba => "Color RGBA"

/-- The spellings that descriptors use, without blanks, underscores and dashes and in
lower case. -/
def spellings : List (String × Primitive) := [
  ("number", number), ("scalar", number), ("string", string), ("boolean", boolean),
  ("bool", boolean), ("object", object), ("array", array), ("code", code),
  ("nothing", nothing), ("void", nothing), ("any", any), ("anything", any), ("side", side),
  ("group", group), ("config", config), ("control", control), ("display", display),
  ("namespace", nameSpace), ("location", location), ("script", script),
  ("scripthandle", script), ("structuredtext", structuredText), ("text", structuredText),
  ("task", task), ("teammember", teamMember), ("hashmap", hashMap),
  ("position2d", position2D), ("pos2d", position2D), ("position3d", position3D),
  ("position", position3D), ("pos3d", position3D), ("colorrgb", colorRgb),
  ("colorrgba", colorRgba), ("color", colorRgba)]

/-- The type that a descriptor names; case, spaces, underscores and dashes do not matter. -/
def ofSpelling? (s : String) : Option Primitive :=
  let key := s.toList.filter fun c => !(c == ' ' || c == '_' || c == '-')
  spellings.lookup (String.ofList (key.map Char.toLower))

/-- Number of numbers that a compound type stands for; 0 for all others. -/
def compoundLength : Primitive → Nat
  | position2D => 2
  | position3D | colorRgb => 3
  | colorRgba => 4
  | _ => 0

end Primitive

mutual

/-- A primitive type or a sequence of types. -/
inductive ValueType where
  | primitive (p : Primitive)
  | expanded (s : TypeSequence)

/-- Types by position. The last `optional` slots may be left out, and if the sequence is
`unbounded` its last slot repeats any number of times. The count is kept as it was set,
even where it exceeds the number of slots. -/
structure TypeSequence where
  slots : List ValueType
  unbounded : Bool := false
  optional : Nat := 0

end

instance : Inhabited ValueType := ⟨.primitive .any⟩

/-- The number of optional slots was to be set below zero. -/
structure NegativeCount where
  count : Int
deriving DecidableEq, Repr

namespace NegativeCount

def message (e : NegativeCount) : String :=
  "invalid argument: numOptionalValues is " ++ toString e.count ++ ", must be >= 0"

end NegativeCount

namespace TypeSequence

/-- The type of the array without elements. -/
def empty : TypeSequence := ⟨[], false, 0⟩

/-- Bounded and without slots. -/
def isEmpty (s : TypeSequence) : Bool := !s.unbounded && s.slots.isEmpty

/-- Whether the values are arrays: a single bounded slot is just its own type. -/
def isArray (s : TypeSequence) : Bool := s.unbounded || s.slots.length > 1 || s.isEmpty

/-- One more slot at the end. -/
def push (s : TypeSequence) (t : ValueType) : TypeSequence := { s with slots := s.slots ++ [t] }

/-- The sequence whose last `n` slots are optional. -/
def setOptional (s : TypeSequence) (n : Int) : Except NegativeCount TypeSequence :=
  match n with
  | .ofNat k => .ok { s with optional := k }
  | .negSucc _ => .error ⟨n⟩

/-- Least number of values that a matching array supplies. A slot that repeats may also
be left out. -/
def requiredCount (s : TypeSequence) : Nat :=
  let required := s.slots.length - s.optional
  if s.unbounded then min required (s.slots.length - 1) else required

/-- Whether the sequence is the same as a primitive type. -/
def isPrimitive (s : TypeSequence) (p : Primitive) : Bool :=
  match s.slots with
  | [] => p == .array
  | [.primitive q] => q == p
  | _ => false

end TypeSequence

namespace ValueType

abbrev number : ValueType := primitive .number
abbrev string : ValueType := primitive .string
abbrev boolean : ValueType := primitive .boolean
abbrev array : ValueType := primitive .array
abbrev code : ValueType := primitive .code
abbrev nothing : ValueType := primitive .nothing
abbrev any : ValueType := primitive .any

mutual

/-- The loose equality of types. -/
def same : ValueType → ValueType → Bool
  | primitive p, primitive q => p == q
  | expanded s, expanded t => sameSequence s t
  | expanded s, primitive p => s.isPrimitive p
  | primitive p, expanded s => s.isPrimitive p

/-- Equal slots, and both or neither unbounded. -/
def sameSequence : TypeSequence → TypeSequence → Bool
  | ⟨ss, u, _⟩, ⟨ts, v, _⟩ => u == v && sameSlots ss ts

def sameSlots : List ValueType → List ValueType → Bool
  | [], [] => true
  | s :: ss, t :: ts => same s t && sameSlots ss ts
  | _, _ => false

end

/-- The same as `any`. -/
def isAny (t : ValueType) : Bool := t.same any

/-- The sequence a type stands for: itself as the only slot, or numbers for a compound. -/
def sequence : ValueType → TypeSequence
  | expanded s => s
  | primitive p =>
    match p.compoundLength with
    | 0 => ⟨[primitive p], false, 0⟩
    | n => ⟨List.replicate n number, false, 0⟩

/-- Whether the values are arrays. -/
def isArray : ValueType → Bool
  | primitive p => p == .array || p.compoundLength > 0
  | expanded s => s.isArray

mutual

/-- The name shown in messages: slots in brackets, with dots when the last one repeats. -/
def displayName : ValueType → String
  | primitive p => p.displayName
  | expanded s => displaySequence s

def displaySequence : TypeSequence → String
  | ⟨[t], false, _⟩ => displayName t
  | ⟨ts, unbounded, _⟩ =>
    "[" ++ String.intercalate ", " (displaySlots ts ++ if unbounded then ["..."] else []) ++ "]"

def displaySlots : List ValueType → List String
  | [] => []
  | t :: ts => displayName t :: displaySlots ts

end

/-- The type of an array literal. Without elements it is the empty sequence, a single
element says nothing about the others, and longer literals keep each element's type. -/
def ofElements : List ValueType → ValueType
  | [] => expanded .empty
  | [_] => array
  | ts => expanded ⟨ts, false, 0⟩

end ValueType

end Sqf
