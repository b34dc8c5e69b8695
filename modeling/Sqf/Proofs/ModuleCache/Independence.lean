import Mathlib.Data.Option.Basic
import Sqf.Proofs.ModuleCache

/-!
# Modules do not disturb each other

A session is a cache and a provider of sources that go through steps, each of which is about
one module: its source is supplied, or the cache is asked about it. All modules share the
cache, the provider and the count of loads. Still, as long as no load crashes, a module is
served as if it were alone (`modules_independent`). What two sessions have to have in common
for that is `Session.Alike`; steps on other modules keep it, and a step on the module itself
shows the same in both.

A load that crashes is the exception. It poisons the cache for all modules, and from then on
nothing is loaded.
-/

namespace Sqf.ModuleCache

/-! ## Sessions -/

/-- What a cache is asked about a module. -/
inductive Request where
  | get
  | functions
  | markDirty
  | remove
  | isDirty

namespace Request

/-- The call that makes a request. -/
def call (provider : Provider) (moduleName : String) : Request → Call
  | get => .get provider moduleName
  | functions => .functions provider moduleName
  | markDirty => .markDirty moduleName
  | remove => .remove moduleName
  | isDirty => .isDirty moduleName

end Request

/-- A step of a session. -/
inductive Step where
  /-- The provider answers differently for a module from now on. -/
  | supply (moduleName : String) (answer : Text.Duration → Load)
  | ask (moduleName : String) (request : Request)

namespace Step

/-- The module that the step is about. -/
def moduleName : Step → String
  | supply moduleName _ | ask moduleName _ => moduleName

end Step

/-- What a step shows. -/
inductive Result where
  | supplied
  | done
  /-- A parse; `same` tells whether it is the one that was given for the module before. -/
  | parse (file : String) (parsed : Config.Parsed) (same : Bool)
  | functions (fs : List Config.Function)
  | dirty (isDirty : Bool)
  | error (e : CacheError)
  | crash

namespace Result

def isCrash : Result → Bool
  | crash => true
  | _ => false

end Result

namespace Reply

/-- What a reply shows. -/
def result (f : α → Result) : Reply α → Result
  | value a => f a
  | error e => .error e
  | crash => .crash

def value? : Reply α → Option α
  | value a => some a
  | error _ | crash => none

theorem eq_value_of_value? {r : Reply α} {a : α} (h : r.value? = some a) : r = .value a := by
  cases r with
  | value b => cases h; rfl
  | error e => cases h
  | crash => cases h

/-- A result that is a crash comes from a reply that is one. -/
theorem eq_crash_of_result {r : Reply α} {f : α → Result} (hf : ∀ a, f a ≠ .crash)
    (h : r.result f = .crash) : r = .crash := by
  cases r with
  | value a => exact absurd h (hf a)
  | error e => cases h
  | crash => rfl

theorem eq_crash_of_map {r : Reply α} {f : α → β} (h : r.map f = .crash) : r = .crash := by
  cases r with
  | value a => cases h
  | error e => cases h
  | crash => rfl

end Reply

/-- What is seen of a step: its result, and how many loads it makes. -/
structure Observation where
  moduleName : String
  result : Result
  loads : Nat

/-- A cache with the provider that it asks. -/
structure Session where
  cache : ModuleCache
  provider : Provider
  /-- The load of the parse that was given last for a module. -/
  given : String → Option Nat := fun _ => none

namespace Session

/-- Whether a parse is the one that was given for the module before. -/
def isGiven (s : Session) (moduleName : String) (kept : Kept) : Bool :=
  s.given moduleName == some kept.load

/-- What a request shows. -/
def answer (s : Session) (moduleName : String) : Request → Result
  | .get => (s.cache.get s.provider moduleName).1.result fun kept =>
      .parse kept.file kept.parsed (s.isGiven moduleName kept)
  | .functions => (s.cache.functions s.provider moduleName).1.result .functions
  | .markDirty => (s.cache.markDirty moduleName).1.result fun _ => .done
  | .remove => (s.cache.remove moduleName).1.result fun _ => .done
  | .isDirty => (s.cache.isDirty moduleName).result .dirty

def result (s : Session) : Step → Result
  | .supply _ _ => .supplied
  | .ask moduleName request => s.answer moduleName request

/-- The parse that a request gives, if it gives one. -/
def gives? (s : Session) (moduleName : String) : Request → Option Kept
  | .get => (s.cache.get s.provider moduleName).1.value?
  | .functions | .markDirty | .remove | .isDirty => none

/-- The session behind a step. -/
def after (s : Session) : Step → Session
  | .supply moduleName answer =>
    { s with provider := fun m => if m = moduleName then answer else s.provider m }
  | .ask moduleName request =>
    { s with
      cache := s.cache.after (request.call s.provider moduleName)
      given := fun m =>
        if m = moduleName then ((s.gives? moduleName request).map Kept.load).or (s.given m)
        else s.given m }

def observation (s : Session) (step : Step) : Observation :=
  ⟨step.moduleName, s.result step, (s.after step).cache.loads - s.cache.loads⟩

/-- What is seen of steps one after the other. -/
def observe (s : Session) : List Step → List Observation
  | [] => []
  | step :: steps => s.observation step :: (s.after step).observe steps

/-- Whether the provider crashes in one of the steps. -/
def crashes (s : Session) (steps : List Step) : Bool :=
  (s.observe steps).any fun o => o.result.isCrash

end Session

/-! ## Calls and modules -/

/-- The module that a call is about. -/
def Call.moduleName : Call → String
  | .get _ m | .functions _ m | .markDirty m | .remove m | .isDirty m => m

variable {c : ModuleCache} {m n : String} {provider : Provider}

/-- A module is loaded, or given as it is kept. -/
theorem get_cases (hc : c.poisoned = false) (provider : Provider) (m : String) :
    (c.needsLoad m = true ∧ c.get provider m = c.reload provider m) ∨
      ∃ kept, (c.entry m).dirty = false ∧ (c.entry m).kept = some kept ∧
        c.get provider m = (.value kept, c) := by
  by_cases h : c.needsLoad m = true
  · exact .inl ⟨h, get_of_needsLoad hc h provider⟩
  · obtain ⟨hdirty, kept, hkept⟩ := needsLoad_eq_false_iff.1 (by simpa using h)
    exact .inr ⟨kept, hdirty, hkept, get_of_clean hc hkept hdirty provider⟩

/-- A call changes nothing of what is known of other modules. -/
theorem entry_after_of_ne (hc : c.poisoned = false) {call : Call} (h : n ≠ call.moduleName) :
    (c.after call).entry n = c.entry n := by
  have hget (provider : Provider) (m : String) (hn : n ≠ m) :
      (c.get provider m).2.entry n = c.entry n := by
    rcases get_cases hc provider m with ⟨-, hget⟩ | ⟨kept, -, -, hget⟩
    · rw [hget, reload]
      cases provider m c.wait with
      | config root => exact (entry_setEntry ..).trans (if_neg hn)
      | missing | failed e | crashed => rfl
    · rw [hget]
  cases call with
  | get provider m => exact hget provider m h
  | functions provider m => exact hget provider m h
  | markDirty m =>
    rw [after, markDirty_eq hc]
    exact (entry_setEntry ..).trans (if_neg h)
  | remove m => exact (entry_remove hc).trans (if_neg h)
  | isDirty m => rfl

/-- No call changes how long a load may take. -/
theorem wait_after (hc : c.poisoned = false) (call : Call) : (c.after call).wait = c.wait := by
  have hget (provider : Provider) (m : String) : (c.get provider m).2.wait = c.wait := by
    rcases get_cases hc provider m with ⟨-, hget⟩ | ⟨kept, -, -, hget⟩
    · rw [hget, reload]
      cases provider m c.wait <;> rfl
    · rw [hget]
  cases call with
  | get provider m => exact hget provider m
  | functions provider m => exact hget provider m
  | markDirty m =>
    rw [after, markDirty_eq hc]
    rfl
  | remove m => simp [after, remove, hc]
  | isDirty m => rfl

/-- A poisoned cache is left as it is, whatever is called. -/
theorem after_of_poisoned (hc : c.poisoned = true) (call : Call) : c.after call = c := by
  cases call with
  | get provider m | functions provider m => simp [after, functions_eq, get, hc]
  | markDirty m => simp [after, markDirty, hc]
  | remove m => simp [after, remove, hc]
  | isDirty m => rfl

/-- A crash of the provider poisons the cache, and nothing else does. -/
theorem poisoned_get (hc : c.poisoned = false) (provider : Provider) (m : String) :
    (c.get provider m).2.poisoned = true ↔ (c.get provider m).1 = .crash := by
  rcases get_cases hc provider m with ⟨-, hget⟩ | ⟨kept, -, -, hget⟩
  · rw [hget, reload]
    cases provider m c.wait <;> simp [setEntry, hc]
  · simp [hget, hc]

/-! ## Counting loads -/

/-- The cache works, and the loads that it keeps the parses of have been counted. -/
structure Sound (c : ModuleCache) : Prop where
  healthy : c.poisoned = false
  counted : ∀ m kept, (c.entry m).kept = some kept → kept.load ≤ c.loads

/-- Behind a call that did not crash the cache is sound, and no load has been taken back. -/
theorem Sound.get (h : c.Sound) (hcrash : (c.get provider m).1 ≠ .crash) :
    (c.get provider m).2.Sound ∧ c.loads ≤ (c.get provider m).2.loads ∧
      ∀ kept, (c.get provider m).1 = .value kept → kept.load ≤ (c.get provider m).2.loads := by
  rcases get_cases h.healthy provider m with ⟨-, hget⟩ | ⟨kept, -, hkept, hget⟩
  · rw [hget, reload] at hcrash ⊢
    have hlonger : ∀ n kept, (c.entry n).kept = some kept → kept.load ≤ c.loads + 1 :=
      fun n kept hkept => Nat.le_succ_of_le (h.counted n kept hkept)
    -- A load that fails is counted too, so what is kept stays counted.
    cases hanswer : provider m c.wait with
    | crashed => simp [hanswer] at hcrash
    | missing | failed e =>
      refine ⟨⟨h.healthy, hlonger⟩, Nat.le_succ _, ?_⟩
      rintro _ ⟨⟩
    | config root =>
      refine ⟨⟨h.healthy, ?_⟩, Nat.le_succ _, ?_⟩
      · intro n kept hkept
        simp only [entry_setEntry] at hkept
        split at hkept
        · cases hkept
          exact Nat.le_refl _
        · exact hlonger n kept hkept
      · rintro _ ⟨⟩
        exact Nat.le_refl _
  · rw [hget]
    refine ⟨h, Nat.le_refl _, ?_⟩
    rintro _ ⟨⟩
    exact h.counted m kept hkept

/-- An entry may be set if its load has been counted. -/
theorem Sound.setEntry (h : c.Sound) {e : CacheEntry}
    (he : ∀ kept, e.kept = some kept → kept.load ≤ c.loads) : (c.setEntry m e).Sound := by
  refine ⟨h.healthy, ?_⟩
  intro n kept hkept
  rw [entry_setEntry] at hkept
  split at hkept
  · exact he kept hkept
  · exact h.counted n kept hkept

/-- An entry may be removed. -/
theorem Sound.remove (h : c.Sound) : (c.remove m).2.Sound := by
  have hsame : (c.remove m).2.poisoned = c.poisoned ∧ (c.remove m).2.loads = c.loads := by
    simp [ModuleCache.remove, h.healthy]
  refine ⟨hsame.1.trans h.healthy, ?_⟩
  intro n kept hkept
  rw [entry_remove h.healthy] at hkept
  split at hkept
  · cases hkept
  · rw [hsame.2]
    exact h.counted n kept hkept

namespace Session

variable {s t : Session} {step : Step} {request : Request}

/-- The cache of the session is sound, and what it has given was loaded. -/
structure Sound (s : Session) : Prop where
  cache : s.cache.Sound
  given : ∀ m load, s.given m = some load → load ≤ s.cache.loads

/-! ## One step -/

/-- If the functions are given, the module is. -/
theorem functions_crash (h : s.answer m .functions ≠ .crash) :
    (s.cache.get s.provider m).1 ≠ .crash := by
  intro hcrash
  simp [answer, functions_eq, hcrash, Reply.map, Reply.result] at h

theorem get_crash (h : s.answer m .get ≠ .crash) : (s.cache.get s.provider m).1 ≠ .crash := by
  intro hcrash
  simp [answer, hcrash, Reply.result] at h

/-- A request keeps the cache sound and takes back no load, unless the provider crashes. -/
theorem Sound.cache_after (h : s.Sound) (hcrash : s.answer n request ≠ .crash) :
    (s.cache.after (request.call s.provider n)).Sound ∧
      s.cache.loads ≤ (s.cache.after (request.call s.provider n)).loads := by
  cases request with
  | get =>
    obtain ⟨hsound, hle, -⟩ := h.cache.get (get_crash hcrash)
    exact ⟨hsound, hle⟩
  | functions =>
    obtain ⟨hsound, hle, -⟩ := h.cache.get (functions_crash hcrash)
    exact ⟨hsound, hle⟩
  | markDirty =>
    rw [Request.call, ModuleCache.after, markDirty_eq h.cache.healthy]
    exact ⟨h.cache.setEntry (h.cache.counted n), Nat.le_refl _⟩
  | remove =>
    refine ⟨h.cache.remove, ?_⟩
    simp [ModuleCache.after, Request.call, ModuleCache.remove, h.cache.healthy]
  | isDirty => exact ⟨h.cache, Nat.le_refl _⟩

/-- A parse that is given has been loaded. -/
theorem Sound.load_le_of_gives (h : s.Sound) (hcrash : s.answer n request ≠ .crash) {kept : Kept}
    (hgives : s.gives? n request = some kept) :
    kept.load ≤ (s.cache.after (request.call s.provider n)).loads := by
  cases request with
  | get =>
    obtain ⟨-, -, hkept⟩ := h.cache.get (get_crash hcrash)
    exact hkept kept (Reply.eq_value_of_value? hgives)
  | functions | markDirty | remove | isDirty => cases hgives

/-- Each step keeps the session sound, unless the provider crashes. -/
theorem Sound.after (h : s.Sound) (hcrash : s.result step ≠ .crash) : (s.after step).Sound := by
  cases step with
  | supply n answer => exact ⟨h.cache, h.given⟩
  | ask n request =>
    obtain ⟨hsound, hle⟩ := h.cache_after hcrash
    refine ⟨hsound, ?_⟩
    intro k load hload
    simp only [Session.after] at hload ⊢
    split at hload
    · cases hgives : s.gives? n request with
      | none =>
        rw [hgives] at hload
        exact Nat.le_trans (h.given k load hload) hle
      | some kept =>
        rw [hgives] at hload
        cases hload
        exact h.load_le_of_gives hcrash hgives
    · exact Nat.le_trans (h.given k load hload) hle

/-- A step does nothing to what a session knows of other modules. -/
theorem after_of_ne (h : s.Sound) (hm : m ≠ step.moduleName) :
    (s.after step).cache.entry m = s.cache.entry m ∧ (s.after step).cache.wait = s.cache.wait ∧
      (s.after step).provider m = s.provider m ∧ (s.after step).given m = s.given m := by
  cases step with
  | supply n answer => exact ⟨rfl, rfl, if_neg hm, rfl⟩
  | ask n request =>
    have hname : (request.call s.provider n).moduleName = n := by cases request <;> rfl
    refine ⟨?_, wait_after h.cache.healthy _, rfl, if_neg hm⟩
    apply entry_after_of_ne h.cache.healthy
    rw [hname]
    exact hm

/-! ## Two sessions side by side -/

/-- Two sessions know the same of a module. Their loads are numbered differently, but they agree
on whether the parse that is kept is the one that was given last. -/
structure Alike (m : String) (s t : Session) : Prop where
  left : s.Sound
  right : t.Sound
  wait : s.cache.wait = t.cache.wait
  provider : s.provider m = t.provider m
  dirty : (s.cache.entry m).dirty = (t.cache.entry m).dirty
  kept : Option.Rel (fun k k' => k.file = k'.file ∧ k.parsed = k'.parsed ∧
    s.isGiven m k = t.isGiven m k') (s.cache.entry m).kept (t.cache.entry m).kept

/-- A step on another module shows nothing of this one. -/
theorem Alike.after_of_ne (h : Alike m s t) (hm : m ≠ step.moduleName)
    (hcrash : s.result step ≠ .crash) : Alike m (s.after step) t := by
  obtain ⟨hentry, hwait, hprovider, hgiven⟩ := Session.after_of_ne h.left hm
  refine ⟨h.left.after hcrash, h.right, hwait.trans h.wait, hprovider.trans h.provider, ?_, ?_⟩
  · rw [hentry]
    exact h.dirty
  · simp only [hentry, isGiven, hgiven]
    exact h.kept

/-- Two sessions that are alike load the module together. -/
theorem Alike.needsLoad (h : Alike m s t) : s.cache.needsLoad m = t.cache.needsLoad m := by
  have hnone : (s.cache.entry m).kept.isNone = (t.cache.entry m).kept.isNone := by
    have hrel := h.kept
    generalize (s.cache.entry m).kept = kept at hrel ⊢
    generalize (t.cache.entry m).kept = kept' at hrel ⊢
    cases hrel <;> rfl
  rw [ModuleCache.needsLoad, ModuleCache.needsLoad, h.dirty, hnone]

/-- What two sessions do when they are asked for the parse of a module. -/
inductive BothGet (m : String) (s t : Session) : Prop
  | value (k k' : Kept) (hs : (s.cache.get s.provider m).1 = .value k)
    (ht : (t.cache.get t.provider m).1 = .value k')
    (hs' : (s.cache.get s.provider m).2.entry m = ⟨some k, false⟩)
    (ht' : (t.cache.get t.provider m).2.entry m = ⟨some k', false⟩)
    (file : k.file = k'.file) (parsed : k.parsed = k'.parsed)
    (given : s.isGiven m k = t.isGiven m k')
  | error (e : CacheError) (hs : (s.cache.get s.provider m).1 = .error e)
    (ht : (t.cache.get t.provider m).1 = .error e)
    (hs' : (s.cache.get s.provider m).2.entry m = s.cache.entry m)
    (ht' : (t.cache.get t.provider m).2.entry m = t.cache.entry m)
  | crash (hs : (s.cache.get s.provider m).1 = .crash) (ht : (t.cache.get t.provider m).1 = .crash)

/-- What has just been loaded was not given before. -/
theorem Sound.isGiven_next (h : s.Sound) (m file : String) (parsed : Config.Parsed) :
    s.isGiven m ⟨s.cache.loads + 1, file, parsed⟩ = false := by
  rw [isGiven, beq_eq_false_iff_ne]
  intro hgiven
  have hle := h.given m _ hgiven
  exact absurd hle (Nat.not_succ_le_self _)

/-- They get the same, up to the count of loads, and count as many more. -/
theorem Alike.bothGet (h : Alike m s t) : BothGet m s t ∧
    (s.cache.get s.provider m).2.loads - s.cache.loads =
      (t.cache.get t.provider m).2.loads - t.cache.loads := by
  rcases ModuleCache.get_cases h.left.cache.healthy s.provider m with
    ⟨hload, hget⟩ | ⟨k, hdirty, hk, hget⟩
  · -- Both sessions load the module, and get the same answer.
    have hget' := get_of_needsLoad h.right.cache.healthy (h.needsLoad.symm.trans hload) t.provider
    have hanswer : t.provider m t.cache.wait = s.provider m s.cache.wait := by
      rw [h.provider, h.wait]
    constructor
    · cases hs : s.provider m s.cache.wait with
      | config root =>
        refine .value ⟨s.cache.loads + 1, root.file, Config.parse root.source⟩
          ⟨t.cache.loads + 1, root.file, Config.parse root.source⟩ ?_ ?_ ?_ ?_ rfl rfl ?_
        · rw [hget, reload, hs]
        · rw [hget', reload, hanswer, hs]
        · rw [hget, reload, hs]
          exact (entry_setEntry ..).trans (if_pos rfl)
        · rw [hget', reload, hanswer, hs]
          exact (entry_setEntry ..).trans (if_pos rfl)
        · rw [h.left.isGiven_next, h.right.isGiven_next]
      | missing =>
        refine .error (.noRootConfig m) ?_ ?_ ?_ ?_
        · rw [hget, reload, hs]
        · rw [hget', reload, hanswer, hs]
        · rw [hget, reload, hs]
          rfl
        · rw [hget', reload, hanswer, hs]
          rfl
      | failed e =>
        refine .error e ?_ ?_ ?_ ?_
        · rw [hget, reload, hs]
        · rw [hget', reload, hanswer, hs]
        · rw [hget, reload, hs]
          rfl
        · rw [hget', reload, hanswer, hs]
          rfl
      | crashed =>
        refine .crash ?_ ?_
        · rw [hget, reload, hs]
        · rw [hget', reload, hanswer, hs]
    · rw [hget, hget', loads_reload, loads_reload]
      omega
  · -- Both sessions give what they keep.
    obtain ⟨hdirty', k', hk'⟩ : (t.cache.entry m).dirty = false ∧
        ∃ k', (t.cache.entry m).kept = some k' := by
      refine needsLoad_eq_false_iff.1 ?_
      rw [← h.needsLoad]
      exact needsLoad_eq_false_iff.2 ⟨hdirty, k, hk⟩
    have hget' := get_of_clean h.right.cache.healthy hk' hdirty' t.provider
    have hrel := h.kept
    rw [hk, hk'] at hrel
    cases hrel with
    | some hsame =>
      obtain ⟨hfile, hparsed, hgiven⟩ := hsame
      constructor
      · refine .value k k' (by rw [hget]) (by rw [hget']) ?_ ?_ hfile hparsed hgiven
        · rw [hget, ← hk, ← hdirty]
        · rw [hget', ← hk', ← hdirty']
      · rw [hget, hget', Nat.sub_self, Nat.sub_self]

/-- A request about the module shows the same in both sessions. -/
theorem Alike.answer (h : Alike m s t) (request : Request) :
    s.answer m request = t.answer m request := by
  -- All requests but the first two are answered without a load.
  cases request with
  | get =>
    rcases h.bothGet.1 with ⟨k, k', hs, ht, -, -, hfile, hparsed, hgiven⟩ | ⟨e, hs, ht⟩ | ⟨hs, ht⟩
    · simp [Session.answer, hs, ht, Reply.result, hfile, hparsed, hgiven]
    · simp [Session.answer, hs, ht, Reply.result]
    · simp [Session.answer, hs, ht, Reply.result]
  | functions =>
    rcases h.bothGet.1 with ⟨k, k', hs, ht, -, -, hfile, hparsed, hgiven⟩ | ⟨e, hs, ht⟩ | ⟨hs, ht⟩
    · simp [Session.answer, functions_eq, hs, ht, Reply.result, Reply.map, hparsed]
    · simp [Session.answer, functions_eq, hs, ht, Reply.result, Reply.map]
    · simp [Session.answer, functions_eq, hs, ht, Reply.result, Reply.map]
  | markDirty =>
    simp [Session.answer, markDirty_eq h.left.cache.healthy, markDirty_eq h.right.cache.healthy,
      Reply.result]
  | remove =>
    simp [Session.answer, ModuleCache.remove, h.left.cache.healthy, h.right.cache.healthy,
      Reply.result]
  | isDirty =>
    simp [Session.answer, ModuleCache.isDirty, h.left.cache.healthy, h.right.cache.healthy,
      h.needsLoad, Reply.result]

/-- It makes as many loads in both. -/
theorem Alike.loads (h : Alike m s t) (request : Request) :
    (s.cache.after (request.call s.provider m)).loads - s.cache.loads =
      (t.cache.after (request.call t.provider m)).loads - t.cache.loads := by
  cases request with
  | get | functions => exact h.bothGet.2
  | markDirty =>
    simp [Request.call, ModuleCache.after, markDirty_eq h.left.cache.healthy,
      markDirty_eq h.right.cache.healthy, setEntry]
  | remove =>
    simp [Request.call, ModuleCache.after, ModuleCache.remove, h.left.cache.healthy,
      h.right.cache.healthy]
  | isDirty => simp [Request.call, ModuleCache.after]

/-- What is given for the module behind a request about it. -/
theorem given_after_ask (s : Session) (m : String) (request : Request) :
    (s.after (.ask m request)).given m = ((s.gives? m request).map Kept.load).or (s.given m) :=
  if_pos rfl

theorem cache_after_ask (s : Session) (m : String) (request : Request) :
    (s.after (.ask m request)).cache = s.cache.after (request.call s.provider m) :=
  rfl

/-- Behind a request about the module the two sessions are still alike. -/
theorem Alike.after_ask (h : Alike m s t) (hcrash : s.answer m request ≠ .crash) :
    Alike m (s.after (.ask m request)) (t.after (.ask m request)) := by
  have hs : Sound (s.after (.ask m request)) := h.left.after hcrash
  have hcrash' : t.answer m request ≠ .crash := by
    rw [← h.answer request]
    exact hcrash
  have ht : Sound (t.after (.ask m request)) := h.right.after hcrash'
  have hwait : (s.after (.ask m request)).cache.wait = (t.after (.ask m request)).cache.wait := by
    rw [cache_after_ask, cache_after_ask, wait_after h.left.cache.healthy,
      wait_after h.right.cache.healthy]
    exact h.wait
  suffices hknown : ((s.after (.ask m request)).cache.entry m).dirty =
      ((t.after (.ask m request)).cache.entry m).dirty ∧
      Option.Rel (fun k k' => k.file = k'.file ∧ k.parsed = k'.parsed ∧
          (s.after (.ask m request)).isGiven m k = (t.after (.ask m request)).isGiven m k')
        ((s.after (.ask m request)).cache.entry m).kept
        ((t.after (.ask m request)).cache.entry m).kept from
    ⟨hs, ht, hwait, h.provider, hknown.1, hknown.2⟩
  -- What the sessions know of the module now depends on the request.
  simp only [isGiven, given_after_ask, cache_after_ask]
  cases request with
  | get =>
    rcases h.bothGet.1 with ⟨k, k', hvalue, hvalue', hentry, hentry', hfile, hparsed, -⟩ |
      ⟨e, herror, herror', hentry, hentry'⟩ | ⟨hcrashed, -⟩
    · -- The parse that is kept now is the one that was given now.
      simp only [Request.call, ModuleCache.after, gives?, hentry, hentry', hvalue, hvalue',
        Reply.value?]
      exact ⟨trivial, .some ⟨hfile, hparsed, by simp⟩⟩
    · simp only [Request.call, ModuleCache.after, gives?, hentry, hentry', herror, herror',
        Reply.value?]
      exact ⟨h.dirty, h.kept⟩
    · exact absurd hcrashed (get_crash hcrash)
  | functions =>
    simp only [Request.call, ModuleCache.after, functions_eq, gives?]
    rcases h.bothGet.1 with ⟨k, k', -, -, hentry, hentry', hfile, hparsed, hgiven⟩ |
      ⟨e, -, -, hentry, hentry'⟩ | ⟨hcrashed, -⟩
    · rw [hentry, hentry']
      exact ⟨rfl, .some ⟨hfile, hparsed, hgiven⟩⟩
    · rw [hentry, hentry']
      exact ⟨h.dirty, h.kept⟩
    · exact absurd hcrashed (functions_crash hcrash)
  | markDirty =>
    simp only [Request.call, ModuleCache.after, markDirty_eq h.left.cache.healthy,
      markDirty_eq h.right.cache.healthy, entry_setEntry, ↓reduceIte]
    exact ⟨trivial, h.kept⟩
  | remove =>
    simp only [Request.call, ModuleCache.after, entry_remove h.left.cache.healthy,
      entry_remove h.right.cache.healthy, ↓reduceIte]
    exact ⟨trivial, .none⟩
  | isDirty => exact ⟨h.dirty, h.kept⟩

/-- A step on the module is seen alike in both sessions, and leaves them alike. -/
theorem Alike.observation (h : Alike m s t) (hm : step.moduleName = m) :
    s.observation step = t.observation step ∧
      (s.result step ≠ .crash → Alike m (s.after step) (t.after step)) := by
  subst hm
  cases step with
  | supply n answer =>
    refine ⟨?_, fun _ => ⟨h.left.after nofun, h.right.after nofun, h.wait, ?_, h.dirty, h.kept⟩⟩
    · simp [Session.observation, result, Session.after]
    · simp [Session.after, Step.moduleName]
  | ask n request =>
    refine ⟨?_, fun hcrash => h.after_ask hcrash⟩
    have halike : Alike n s t := h
    simp only [Session.observation, result, cache_after_ask]
    rw [halike.answer request, halike.loads request]

/-! ## Runs -/

theorem crashes_cons (s : Session) (step : Step) (steps : List Step) :
    s.crashes (step :: steps) = ((s.result step).isCrash || (s.after step).crashes steps) :=
  rfl

theorem Result.ne_crash {r : Result} (h : r.isCrash = false) : r ≠ .crash := by
  rintro rfl
  cases h

/-- What is seen of a module among others is what is seen of it alone. -/
theorem Alike.observe (h : Alike m s t) {steps : List Step} (hcrash : s.crashes steps = false) :
    (s.observe steps).filter (fun o => o.moduleName == m) =
      t.observe (steps.filter fun step => step.moduleName == m) := by
  induction steps generalizing s t with
  | nil => rfl
  | cons step steps ih =>
    rw [crashes_cons, Bool.or_eq_false_iff] at hcrash
    have hfirst := Result.ne_crash hcrash.1
    rw [Session.observe]
    by_cases hm : step.moduleName = m
    · -- Both sessions take the step.
      obtain ⟨hseen, halike⟩ := h.observation hm
      have hkeep : ((s.observation step).moduleName == m) = true := beq_iff_eq.2 hm
      rw [List.filter_cons, if_pos hkeep, List.filter_cons, if_pos (beq_iff_eq.2 hm),
        Session.observe, hseen, ih (halike hfirst) hcrash.2]
    · -- Only the session with all modules takes the step, and that leaves the two alike.
      have hother : (step.moduleName == m) ≠ true := fun heq => hm (beq_iff_eq.1 heq)
      have hdrop : ((s.observation step).moduleName == m) ≠ true := hother
      rw [List.filter_cons, if_neg hdrop, List.filter_cons, if_neg hother]
      exact ih (h.after_of_ne (fun heq => hm heq.symm) hfirst) hcrash.2

/-- What is seen of a step when the cache is poisoned: every request fails, and nothing is
loaded. -/
def whenPoisoned : Step → Observation
  | .supply m _ => ⟨m, .supplied, 0⟩
  | .ask m _ => ⟨m, .error .poisoned, 0⟩

/-- A poisoned cache answers nothing. -/
theorem answer_of_poisoned (hs : s.cache.poisoned = true) (m : String) (request : Request) :
    s.answer m request = .error .poisoned := by
  cases request <;>
    simp [answer, functions_eq, ModuleCache.get, ModuleCache.markDirty, ModuleCache.remove,
      ModuleCache.isDirty, hs, Reply.map, Reply.result]

/-- So a session with one shows the same error at each step. -/
theorem observe_of_poisoned (hs : s.cache.poisoned = true) (steps : List Step) :
    s.observe steps = steps.map whenPoisoned := by
  induction steps generalizing s with
  | nil => rfl
  | cons step steps ih =>
    have hcache : (s.after step).cache = s.cache := by
      cases step with
      | supply n answer => rfl
      | ask n request => exact after_of_poisoned hs _
    have hseen : s.observation step = whenPoisoned step := by
      rw [observation, hcache, Nat.sub_self]
      cases step with
      | supply n answer => rfl
      | ask n request => rw [result, answer_of_poisoned hs]; rfl
    rw [Session.observe, List.map_cons, hseen, ih (by rw [hcache]; exact hs)]

/-- The session behind steps. -/
def run (s : Session) (steps : List Step) : Session := steps.foldl after s

/-- What is observed later depends on what has been run before. -/
theorem observe_append (s : Session) (steps later : List Step) :
    s.observe (steps ++ later) = s.observe steps ++ (s.run steps).observe later := by
  induction steps generalizing s with
  | nil => rfl
  | cons step steps ih => rw [List.cons_append, observe, ih, observe, List.cons_append]; rfl

/-- A poisoned cache stays so. -/
theorem poisoned_after (hs : s.cache.poisoned = true) (step : Step) :
    (s.after step).cache.poisoned = true := by
  cases step with
  | supply n answer => exact hs
  | ask n request =>
    rw [cache_after_ask, after_of_poisoned hs]
    exact hs

/-- Also after many steps. -/
theorem poisoned_run (hs : s.cache.poisoned = true) (steps : List Step) :
    (s.run steps).cache.poisoned = true := by
  induction steps generalizing s with
  | nil => exact hs
  | cons step steps ih => exact ih (poisoned_after hs step)

/-- A crash poisons the cache. -/
theorem poisoned_of_crash (hcrash : s.result step = .crash) :
    (s.after step).cache.poisoned = true := by
  by_cases hs : s.cache.poisoned = true
  · exact poisoned_after hs step
  have hhealthy : s.cache.poisoned = false := by simpa using hs
  -- Only a request for the module or its functions can crash.
  cases step with
  | supply n answer => cases hcrash
  | ask n request =>
    cases request with
    | get =>
      have hget : (s.cache.get s.provider n).1 = .crash :=
        Reply.eq_crash_of_result (fun _ => Result.noConfusion) hcrash
      exact (poisoned_get hhealthy s.provider n).2 hget
    | functions =>
      have hfunctions : (s.cache.functions s.provider n).1 = .crash :=
        Reply.eq_crash_of_result (fun _ => Result.noConfusion) hcrash
      have hget : (s.cache.get s.provider n).1 = .crash := Reply.eq_crash_of_map hfunctions
      exact (poisoned_get hhealthy s.provider n).2 hget
    | markDirty => simp [result, answer, markDirty_eq hhealthy, Reply.result] at hcrash
    | remove => simp [result, answer, ModuleCache.remove, hhealthy, Reply.result] at hcrash
    | isDirty => simp [result, answer, ModuleCache.isDirty, hhealthy, Reply.result] at hcrash

/-- If a step crashes, the cache is poisoned in the end. -/
theorem poisoned_of_crashes {steps : List Step} (h : s.crashes steps = true) :
    (s.run steps).cache.poisoned = true := by
  induction steps generalizing s with
  | nil => cases h
  | cons step steps ih =>
    rw [crashes_cons, Bool.or_eq_true] at h
    rcases h with h | h
    · have hcrash : s.result step = .crash := by
        cases hresult : s.result step <;> simp [hresult, Result.isCrash] at h ⊢
      exact poisoned_run (poisoned_of_crash hcrash) steps
    · exact ih h

end Session

/-- As long as the provider does not crash, what is seen of a module among others is what is seen
of it alone. After a crash every request fails, whatever module it is about, and nothing is loaded
any more. -/
theorem modules_independent (wait : Text.Duration) (provider : Provider) (steps : List Step) :
    let s : Session := { cache := { wait }, provider }
    (s.crashes steps = false → ∀ m,
      (s.observe steps).filter (fun o => o.moduleName == m) =
        s.observe (steps.filter fun step => step.moduleName == m)) ∧
    (s.crashes steps = true → ∀ later,
      s.observe (steps ++ later) = s.observe steps ++ later.map Session.whenPoisoned) := by
  intro s
  have hcache : s.cache.Sound := ⟨rfl, nofun⟩
  have hsound : s.Sound := ⟨hcache, nofun⟩
  constructor
  · intro hcrash m
    have halike : s.Alike m s := ⟨hsound, hsound, rfl, rfl, rfl, .none⟩
    exact halike.observe hcrash
  · intro hcrash later
    rw [Session.observe_append, Session.observe_of_poisoned (Session.poisoned_of_crashes hcrash)]

/-- Steps on two modules, one of which is changed between two loads of the other. -/
def interleaved : List Step := [
  .supply "a" fun _ => .config ⟨"description.ext", "class A {};"⟩,
  .ask "a" .get,
  .ask "b" .get,
  .ask "b" .markDirty,
  .ask "a" .get,
  .ask "a" .isDirty]

/-- Steps after which a module cannot be loaded without a crash. -/
def crashing : List Step := [
  .supply "b" fun _ => .crashed,
  .ask "a" .get,
  .ask "b" .functions]

/-- Two modules that are used in turn, and a crash of one that leaves none to be used. -/
theorem modules_independent_interleaved :
    let s : Session := { cache := {}, provider := fun _ _ => .missing }
    (s.crashes interleaved = false ∧
      (s.observe interleaved).filter (fun o => o.moduleName == "a") =
        s.observe (interleaved.filter fun step => step.moduleName == "a")) ∧
    (s.crashes crashing = true ∧
      s.observe (crashing ++ [.ask "a" .get]) =
        s.observe crashing ++ [⟨"a", .error .poisoned, 0⟩]) := by
  intro s
  have hquiet : s.crashes interleaved = false := rfl
  have hcrash : s.crashes crashing = true := rfl
  exact ⟨⟨hquiet, (modules_independent _ _ interleaved).1 hquiet "a"⟩,
    ⟨hcrash, (modules_independent _ _ crashing).2 hcrash [.ask "a" .get]⟩⟩

end Sqf.ModuleCache
