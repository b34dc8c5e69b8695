import Sqf.Json.Content

/-!
# Settings of a check

What a check reports, and which global names hold code. Settings can be given
as JSON: an object whose members may be left out, or an array of the values of
the first members in order.
-/

namespace Sqf

/-- What a check is asked to look for. -/
structure Settings where
  /-- Report the read of a local that nothing has bound. -/
  warnUndefinedLocals : Bool := false
  /-- Global names that hold code. -/
  knownFunctions : List String := []

namespace Settings

/-- The settings with one more function, known in lower case. -/
def addFunction (s : Settings) (name : String) : Settings :=
  { s with knownFunctions := s.knownFunctions ++ [name.toLower] }

/-- Whether a name is known as a function. -/
def isFunction (s : Settings) (name : String) : Bool := s.knownFunctions.contains name.toLower

/-- The names in a JSON array. -/
def namesOf? (value : Json) : Option (List String) := value.asArray?.bind (·.mapM Json.asText?)

/-- Reads settings. -/
def ofJson? : Json → Option Settings
  | .object members => do
    guard (Json.keysAreText members)
    let warn ← Json.fieldOr? members "warn_undefined_locals" false Json.asBool?
    let known ← Json.fieldOr? members "known_functions" [] namesOf?
    return ⟨warn, known⟩
  | .array [] => some {}
  | .array [warn] => do return ⟨← warn.asBool?, []⟩
  | .array [warn, known] => do return ⟨← warn.asBool?, ← namesOf? known⟩
  | _ => none

end Settings

end Sqf
