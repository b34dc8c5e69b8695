import Sqf.Json
import Sqf.Json.Magnitude

/-!
# What a JSON value holds

A well-formed value may still hold what cannot be represented: strings without
text, and numbers beyond the range of doubles. It may also be nested too deeply
to be kept. Objects are asked for the members they are known to have.
-/

namespace Sqf.Json

mutual

/-- The longest chain of arrays and objects inside of each other. -/
def depth : Json → Nat
  | array items => depthOfItems items + 1
  | object members => depthOfMembers members + 1
  | _ => 0

def depthOfItems : List Json → Nat
  | [] => 0
  | item :: items => max item.depth (depthOfItems items)

def depthOfMembers : List (Option String × Json) → Nat
  | [] => 0
  | (_, value) :: members => max value.depth (depthOfMembers members)

end

mutual

/-- All strings have a text and all numbers are in range. -/
def isRepresentable : Json → Bool
  | number literal => isLiteralInRange literal
  | text value => value.isSome
  | array items => areRepresentable items
  | object members => membersRepresentable members
  | _ => true

def areRepresentable : List Json → Bool
  | [] => true
  | item :: items => item.isRepresentable && areRepresentable items

def membersRepresentable : List (Option String × Json) → Bool
  | [] => true
  | (key, value) :: members =>
    key.isSome && value.isRepresentable && membersRepresentable members

end

/-- The value of a member that may be absent. A member that is there twice is refused. -/
def field? (members : List (Option String × Json)) (key : String) : Option (Option Json) :=
  match members.filter fun member => member.1 == some key with
  | [] => some none
  | [(_, value)] => some (some value)
  | _ => none

/-- Whether all keys have a text. -/
def keysAreText (members : List (Option String × Json)) : Bool :=
  members.all fun member => member.1.isSome

def asText? : Json → Option String
  | text value => value
  | _ => none

def asBool? : Json → Option Bool
  | bool b => some b
  | _ => none

def asArray? : Json → Option (List Json)
  | array items => some items
  | _ => none

/-- A member read by `read?` that has a default when it is absent. -/
def fieldOr? (members : List (Option String × Json)) (key : String) (default : α)
    (read? : Json → Option α) : Option α := do
  match ← field? members key with
  | some value => read? value
  | none => return default

/-- A member that has to be there. -/
def require? (members : List (Option String × Json)) (key : String)
    (read? : Json → Option α) : Option α := do
  match ← field? members key with
  | some value => read? value
  | none => none

end Sqf.Json
