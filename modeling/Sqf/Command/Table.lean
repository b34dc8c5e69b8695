import Sqf.Command
import Sqf.Token

/-!
# Command tables

A table is a list of signatures in the order they were added. The overloads of
a command in an arity are the signatures of that arity whose name is the same
up to case, so adding tables is appending lists, and the order of overloads is
the order of adding.
-/

namespace Sqf

/-- A signature with its name in lower case, which is what look-ups compare. -/
structure TableEntry where
  signature : Signature
  key : String := signature.name.toLower
  key_eq : key = signature.name.toLower := by rfl

/-- Command signatures in order. -/
structure Table where
  entries : List TableEntry := []

namespace Table

/-- The table without commands. -/
def empty : Table := ⟨[]⟩

instance : Inhabited Table := ⟨empty⟩

/-- All signatures, in the order they were added. -/
def signatures (t : Table) : List Signature := t.entries.map TableEntry.signature

def ofSignatures (ss : List Signature) : Table := ⟨ss.map fun s => { signature := s }⟩

/-- The table with one more signature, behind all others. -/
def insert (t : Table) (s : Signature) : Table := ⟨t.entries ++ [{ signature := s }]⟩

/-- The signatures of the first table, then those of the second. -/
def append (t u : Table) : Table := ⟨t.entries ++ u.entries⟩

instance : Append Table := ⟨append⟩

/-- Number of signatures. -/
def size (t : Table) : Nat := t.entries.length

def isEmpty (t : Table) : Bool := t.entries.isEmpty

/-- The overloads of a command in an arity, in the order they were added. -/
def overloads (t : Table) (name : String) (arity : Arity) : List Signature :=
  let key := name.toLower
  t.entries.filterMap fun e =>
    if e.signature.arity = arity && e.key == key then some e.signature else none

/-- Whether the command has a form of this arity. -/
def has (t : Table) (name : String) (arity : Arity) : Bool :=
  let key := name.toLower
  t.entries.any fun e => e.signature.arity = arity && e.key == key

/-- Whether the command exists in any form. -/
def isKnown (t : Table) (name : String) : Bool :=
  let key := name.toLower
  t.entries.any fun e => e.key == key

/-- What a use of a command comes to. -/
inductive Resolution where
  /-- The command does not exist. -/
  | unknown
  /-- The command exists, but not with this number of operands. -/
  | unsupportedArity
  /-- The first overload that takes the operands. -/
  | found (s : Signature)
  /-- No overload takes them; the one that gets furthest, and the operand it refuses. -/
  | noMatch (closest : Signature) (argument : Nat)

/-- Of a signature and further ones, the first that takes the operands, else the one with
the greatest mismatch index, the earliest of several. -/
def pick (supplied : List ValueType) (best : Option (Signature × Nat)) :
    List Signature → Resolution
  | [] =>
    match best with
    | some (s, n) => .noMatch s n
    | none => .unknown
  | s :: ss =>
    match s.mismatch? supplied with
    | none => .found s
    | some n =>
      let better := match best with
        | some (_, m) => decide (n > m)
        | none => true
      pick supplied (if better then some (s, n) else best) ss

/-- Finds the overload for operands of these types. -/
def resolve (t : Table) (name : String) (arity : Arity) (supplied : List ValueType) :
    Resolution :=
  match t.overloads name arity with
  | [] => if t.isKnown name then .unsupportedArity else .unknown
  | ss => pick supplied none ss

@[simp] theorem signatures_insert (t : Table) (s : Signature) :
    (t.insert s).signatures = t.signatures ++ [s] := by
  simp [signatures, insert]

@[simp] theorem signatures_append (t u : Table) :
    (t ++ u).signatures = t.signatures ++ u.signatures := by
  show (append t u).signatures = _
  simp [signatures, append]

@[simp] theorem signatures_ofSignatures (ss : List Signature) :
    (ofSignatures ss).signatures = ss := by
  simp [signatures, ofSignatures, Function.comp_def]

/-- Look-ups see the signatures only. -/
theorem overloads_eq (t : Table) (name : String) (arity : Arity) :
    t.overloads name arity =
      t.signatures.filter fun s => s.arity = arity && sameName s.name name := by
  simp only [overloads, signatures, List.filter_map]
  induction t.entries with
  | nil => rfl
  | cons e es ih =>
    simp only [List.filterMap_cons, List.filter_cons, Function.comp, e.key_eq, sameName]
    split <;> split <;> simp_all [Function.comp_def, sameName]

theorem has_eq (t : Table) (name : String) (arity : Arity) :
    t.has name arity = !(t.overloads name arity).isEmpty := by
  simp only [has, overloads]
  induction t.entries with
  | nil => rfl
  | cons e es ih =>
    simp only [List.any_cons, List.filterMap_cons]
    split <;> rename_i h <;> split at h <;> simp_all

theorem isKnown_iff {t : Table} {name : String} :
    t.isKnown name = true ↔ ∃ s ∈ t.signatures, sameName s.name name = true := by
  simp only [isKnown, signatures, List.any_eq_true, List.mem_map, sameName]
  constructor
  · rintro ⟨e, he, hkey⟩
    exact ⟨e.signature, ⟨e, he, rfl⟩, e.key_eq ▸ hkey⟩
  · rintro ⟨_, ⟨e, he, rfl⟩, hname⟩
    exact ⟨e, he, e.key_eq ▸ hname⟩

/-- The overloads of appended tables are appended. -/
theorem overloads_append (t u : Table) (name : String) (arity : Arity) :
    (t ++ u).overloads name arity = t.overloads name arity ++ u.overloads name arity := by
  simp [overloads_eq]

end Table

end Sqf
