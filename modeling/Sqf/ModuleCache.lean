import Sqf.Config.Functions
import Sqf.Config.Parse
import Sqf.Text.Duration
import Sqf.Text.Quoted

/-!
# Cache of root configs

Each module of a project has a root config. The cache keeps the parse of it and
asks the provider of sources again only when it has none or when the module has
been marked dirty. A load that fails leaves the old parse in place, but the
module stays dirty.

If the provider crashes while the cache waits for it, the cache is poisoned:
from then on every call fails and nothing is loaded.
-/

namespace Sqf

/-- The text of a root config and the name of its file. -/
structure RootConfig where
  file : String
  source : String
deriving DecidableEq, Repr

/-- Why a root config cannot be had. -/
inductive CacheError where
  | noRootConfig (moduleName : String)
  | timeout (moduleName : String) (waited : Text.Duration)
  | provider (moduleName message : String)
  | poisoned
deriving DecidableEq, Repr

namespace CacheError

def message : CacheError → String
  | noRootConfig moduleName =>
    "module " ++ Text.quoted moduleName ++
      " has no root config (description.ext or config.cpp)"
  | timeout moduleName waited =>
    "timed out after " ++ waited.text ++ " waiting for the source of module " ++ moduleName
  | provider moduleName message => "failed to load module " ++ moduleName ++ ": " ++ message
  | poisoned => "module cache lock poisoned"

end CacheError

/-- What the provider of sources answers. -/
inductive Load where
  | config (c : RootConfig)
  /-- The module has no root config. -/
  | missing
  | failed (e : CacheError)
  | crashed

/-- The source of a module's root config, given how long it may be waited for. -/
abbrev Provider := String → Text.Duration → Load

/-- A parse that the cache keeps. Loads are numbered, so that a parse is known apart from
that of a later load of the same text. -/
structure Kept where
  load : Nat
  file : String
  parsed : Config.Parsed

/-- What the cache knows of a module. -/
structure CacheEntry where
  kept : Option Kept := none
  dirty : Bool := false

/-- Root configs by module. -/
structure ModuleCache where
  entries : List (String × CacheEntry) := []
  /-- How long the provider may be waited for. -/
  wait : Text.Duration := .ofSeconds 15
  /-- Number of calls to the provider so far. -/
  loads : Nat := 0
  poisoned : Bool := false

namespace ModuleCache

/-- What a call gives: a value or an error, unless the provider crashes. -/
inductive Reply (α : Type) where
  | value (a : α)
  | error (e : CacheError)
  | crash

namespace Reply

def map (f : α → β) : Reply α → Reply β
  | value a => value (f a)
  | error e => error e
  | crash => crash

end Reply

/-- What is known of a module; of one that never came up, nothing. -/
def entry (c : ModuleCache) (moduleName : String) : CacheEntry :=
  (c.entries.lookup moduleName).getD {}

/-- The cache with another entry for a module. -/
def setEntry (c : ModuleCache) (moduleName : String) (e : CacheEntry) : ModuleCache :=
  { c with entries := (moduleName, e) :: c.entries.filter fun entry => entry.1 != moduleName }

/-- Nothing is kept for the module, or what is kept is out of date. -/
def needsLoad (c : ModuleCache) (moduleName : String) : Bool :=
  (c.entry moduleName).dirty || (c.entry moduleName).kept.isNone

/-- Asks the provider. Only a success changes what is kept. -/
def reload (c : ModuleCache) (provider : Provider) (moduleName : String) :
    Reply Kept × ModuleCache :=
  let asked := { c with loads := c.loads + 1 }
  match provider moduleName c.wait with
  | .config root =>
    let kept : Kept := ⟨asked.loads, root.file, Config.parse root.source⟩
    (.value kept, asked.setEntry moduleName ⟨some kept, false⟩)
  | .missing => (.error (.noRootConfig moduleName), asked)
  | .failed e => (.error e, asked)
  | .crashed => (.crash, { asked with poisoned := true })

/-- The parse of a module's root config. It is loaded if it needs to be. -/
def get (c : ModuleCache) (provider : Provider) (moduleName : String) :
    Reply Kept × ModuleCache :=
  if c.poisoned then (.error .poisoned, c)
  else
    match (c.entry moduleName).kept, (c.entry moduleName).dirty with
    | some kept, false => (.value kept, c)
    | _, _ => c.reload provider moduleName

/-- The functions that a module's root config declares. -/
def functions (c : ModuleCache) (provider : Provider) (moduleName : String) :
    Reply (List Config.Function) × ModuleCache :=
  let (reply, c) := c.get provider moduleName
  (reply.map fun kept => Config.functions kept.parsed.entries, c)

/-- Has the module loaded again when it is asked for next. -/
def markDirty (c : ModuleCache) (moduleName : String) : Reply Unit × ModuleCache :=
  if c.poisoned then (.error .poisoned, c)
  else (.value (), c.setEntry moduleName { c.entry moduleName with dirty := true })

/-- Whether the module is loaded when it is asked for next. -/
def isDirty (c : ModuleCache) (moduleName : String) : Reply Bool :=
  if c.poisoned then .error .poisoned else .value (c.needsLoad moduleName)

/-- Forgets the module. -/
def remove (c : ModuleCache) (moduleName : String) : Reply Unit × ModuleCache :=
  if c.poisoned then (.error .poisoned, c)
  else (.value (), { c with entries := c.entries.filter fun entry => entry.1 != moduleName })

theorem entry_setEntry (c : ModuleCache) (m n : String) (e : CacheEntry) :
    (c.setEntry m e).entry n = if n = m then e else c.entry n := by
  by_cases h : n = m
  · subst h; simp [setEntry, entry]
  · have hb : (n == m) = false := by simp [h]
    simp only [setEntry, entry, List.lookup_cons, hb, if_neg h]
    congr 1
    induction c.entries with
    | nil => rfl
    | cons x xs ih =>
      obtain ⟨k, v⟩ := x
      by_cases hk : k = m
      · have hn : (n == k) = false := by simp [hk, h]
        simp [hk, hb, ih, List.lookup_cons]
      · by_cases hn : n = k
        · subst hn; simp [hk]
        · have hn' : (n == k) = false := by simp [hn]
          simp [hk, hn', ih, List.lookup_cons]

end ModuleCache

end Sqf
