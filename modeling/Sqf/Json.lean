/-!
# JSON values

Command descriptors and settings come as JSON, and reports can be asked for in
it. A number is kept as it is written. A string may spell half of a surrogate
pair, which stands for no character: such a string is well formed but has no
text, and so is kept as `none`. An object keeps its members in order, repeated
keys included.
-/

namespace Sqf

inductive Json where
  | null
  | bool (b : Bool)
  | number (literal : String)
  | text (value : Option String)
  | array (items : List Json)
  | object (members : List (Option String × Json))

namespace Json

instance : Inhabited Json := ⟨null⟩

/-- A string. -/
def str (s : String) : Json := text (some s)

/-- A natural number. -/
def nat (n : Nat) : Json := number (toString n)

/-- An object from keys and values, in order. -/
def obj (members : List (String × Json)) : Json :=
  object (members.map fun (key, value) => (some key, value))

/-- An object with its members in the order of their keys. -/
def sortedObj (members : List (String × Json)) : Json :=
  obj (members.mergeSort fun a b => a.1 ≤ b.1)

end Json

end Sqf
