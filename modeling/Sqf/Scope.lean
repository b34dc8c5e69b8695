import Sqf.Token
import Sqf.ValueType

/-!
# Scopes

Every code block that is checked opens a scope for its locals. Scopes are kept
in the order they were opened, and each one but the first knows the scope
around it, which was opened before. A name that is read is looked for from the
inside out. Case does not matter in names.
-/

namespace Sqf

/-- The locals of a block. -/
structure Scope where
  /-- The number of the block. -/
  id : Nat
  /-- Index of the scope around this one. -/
  parent : Option Nat
  /-- Names in lower case with their types; no name stands there twice. -/
  locals : List (String × ValueType) := []

namespace Scope

/-- The type of a name given in lower case. -/
def find? (s : Scope) (key : String) : Option ValueType := s.locals.lookup key

/-- The list with a type for a name, in place of the one it had. -/
def bindIn (key : String) (type : ValueType) :
    List (String × ValueType) → List (String × ValueType)
  | [] => [(key, type)]
  | (k, t) :: rest => if k = key then (key, type) :: rest else (k, t) :: bindIn key type rest

/-- The scope in which a name has a type. -/
def bind (s : Scope) (name : String) (type : ValueType) : Scope :=
  { s with locals := bindIn name.toLower type s.locals }

/-- What is bound is found, and nothing else changes. -/
theorem lookup_bindIn (key other : String) (type : ValueType)
    (locals : List (String × ValueType)) :
    (bindIn key type locals).lookup other =
      if other = key then some type else locals.lookup other := by
  induction locals with
  | nil =>
    by_cases h : other = key
    · simp [bindIn, h]
    · have hb : (other == key) = false := by simp [h]
      simp [bindIn, List.lookup_cons, h, hb]
  | cons entry rest ih =>
    obtain ⟨k, t⟩ := entry
    by_cases hk : k = key
    · subst hk
      by_cases h : other = k
      · simp [bindIn, h]
      · have hb : (other == k) = false := by simp [h]
        simp [bindIn, List.lookup_cons, h, hb]
    · by_cases h : other = k
      · subst h
        simp [bindIn, hk]
      · have hb : (other == k) = false := by simp [h]
        simp [bindIn, List.lookup_cons, hk, hb, ih]

end Scope

/-- Scopes in the order they were opened. -/
structure Scopes where
  all : Array Scope := #[]

namespace Scopes

/-- The scope of a whole script, which has number 0 and none around it. -/
def root : Scopes := ⟨#[⟨0, none, []⟩]⟩

instance : Inhabited Scopes := ⟨root⟩

/-- Opens a scope for a block within the scope at index `parent`. Its index is the number of
scopes before. -/
def enter (ss : Scopes) (id parent : Nat) : Scopes := ⟨ss.all.push ⟨id, some parent, []⟩⟩

/-- The scopes with a name bound in the one at an index. -/
def bindAt (ss : Scopes) (index : Nat) (name : String) (type : ValueType) : Scopes :=
  ⟨ss.all.modify index fun s => s.bind name type⟩

/-- Looks for a name in lower case, from the scope at an index outwards. -/
def resolveKey (ss : Scopes) (key : String) (index : Nat) : Option (Nat × ValueType) :=
  match ss.all[index]? with
  | none => none
  | some s =>
    match s.find? key with
    | some type => some (index, type)
    | none =>
      match s.parent with
      | some p => if p < index then resolveKey ss key p else none
      | none => none
termination_by index

/-- The innermost scope around and including the one at an index that has a name, and the
type it has there. -/
def resolve (ss : Scopes) (index : Nat) (name : String) : Option (Nat × ValueType) :=
  ss.resolveKey name.toLower index

/-- The scope that was last opened for the block with this number. -/
def byId? (ss : Scopes) (id : Nat) : Option Scope := ss.all.toList.reverse.find? fun s => s.id == id

end Scopes

end Sqf
