import Sqf.ModuleCache

/-!
# What the cache gives after any calls

A history of a cache is a list of calls, each load of which is answered by the provider
that the call brings along. `ModuleCache.lastLoad` says which load of a module was the
last that succeeded. After any history the cache has forgotten all parses but those of
the last loads, and it gives one of them only as long as the module is clean
(`ModuleCache.Faithful`). Each call keeps this, and `serves_run` reads off it what the
next call does.
-/

namespace Sqf.ModuleCache

/-- A call to the cache. One that may load brings the provider of the source. -/
inductive Call where
  | get (provider : Provider) (moduleName : String)
  | functions (provider : Provider) (moduleName : String)
  | markDirty (moduleName : String)
  | remove (moduleName : String)
  | isDirty (moduleName : String)

namespace Call

/-- The provider of the call answers every load with a source, with nothing, or with an error. -/
def Answered : Call → Prop
  | get provider _ | functions provider _ => ∀ m wait, provider m wait ≠ .crashed
  | markDirty _ | remove _ | isDirty _ => True

end Call

/-- The cache behind a call. -/
def after (c : ModuleCache) : Call → ModuleCache
  | .get provider m => (c.get provider m).2
  | .functions provider m => (c.functions provider m).2
  | .markDirty m => (c.markDirty m).2
  | .remove m => (c.remove m).2
  | .isDirty _ => c

/-- The cache behind a history. -/
def run (c : ModuleCache) (calls : List Call) : ModuleCache := calls.foldl after c

/-- The parse that a call loads for a module, if it loads one. -/
def loaded? (c : ModuleCache) (moduleName : String) : Call → Option Kept
  | .get provider m | .functions provider m =>
    if m = moduleName ∧ c.needsLoad m = true then
      match provider m c.wait with
      | .config root => some ⟨c.loads + 1, root.file, Config.parse root.source⟩
      | .missing | .failed _ | .crashed => none
    else none
  | .markDirty _ | .remove _ | .isDirty _ => none

/-- The parse of the last load of a module that succeeded in a history. -/
def lastLoad (c : ModuleCache) (moduleName : String) : List Call → Option Kept
  | [] => none
  | call :: calls => ((c.after call).lastLoad moduleName calls).or (c.loaded? moduleName call)

/-- What the next call to a cache gives and does, where `last` has the parses of the last
successful loads. -/
structure Serves (c : ModuleCache) (last : String → Option Kept) : Prop where
  isDirty : ∀ m, c.isDirty m = .value (c.needsLoad m)
  /-- A module that is clean is not loaded: whatever the provider would answer, the reply is the
  parse of the last load. -/
  clean : ∀ m, c.needsLoad m = false →
    ∃ kept, last m = some kept ∧ ∀ provider, c.get provider m = (.value kept, c)
  /-- A module that is dirty is loaded once. -/
  loads : ∀ m provider, c.needsLoad m = true → (c.get provider m).2.loads = c.loads + 1
  /-- A load that succeeds gives the parse of the text just supplied. -/
  config : ∀ m provider root, c.needsLoad m = true → provider m c.wait = .config root →
    (c.get provider m).1 = .value ⟨c.loads + 1, root.file, Config.parse root.source⟩ ∧
      (c.get provider m).2.needsLoad m = false
  missing : ∀ m provider, c.needsLoad m = true → provider m c.wait = .missing →
    (c.get provider m).1 = .error (.noRootConfig m) ∧ (c.get provider m).2.needsLoad m = true
  failed : ∀ m provider e, c.needsLoad m = true → provider m c.wait = .failed e →
    (c.get provider m).1 = .error e ∧ (c.get provider m).2.needsLoad m = true
  /-- A module stays dirty until a load of it succeeds. -/
  staysDirty : ∀ m call, c.needsLoad m = true → (c.after call).needsLoad m = false →
    (c.loaded? m call).isSome = true
  markDirty : ∀ m, (c.markDirty m).1 = .value () ∧ (c.markDirty m).2.loads = c.loads ∧
    (c.markDirty m).2.needsLoad m = true
  remove : ∀ m, (c.remove m).1 = .value () ∧ (c.remove m).2.loads = c.loads ∧
    (c.remove m).2.needsLoad m = true
  functions : ∀ m provider, (c.functions provider m).2 = (c.get provider m).2 ∧
    (c.functions provider m).1 =
      (c.get provider m).1.map fun kept => Config.functions kept.parsed.entries

/-- Of a module that is clean the cache keeps the parse of the last load, and it has not been
poisoned. -/
structure Faithful (c : ModuleCache) (last : String → Option Kept) : Prop where
  healthy : c.poisoned = false
  kept : ∀ m, c.needsLoad m = false → last m = (c.entry m).kept

variable {c : ModuleCache} {last : String → Option Kept} {m n : String} {provider : Provider}

/-! ## Single calls -/

/-- A module is clean if it has a parse and is not marked. -/
theorem needsLoad_eq_false_iff :
    c.needsLoad m = false ↔ (c.entry m).dirty = false ∧ ∃ kept, (c.entry m).kept = some kept := by
  unfold needsLoad
  rw [Bool.or_eq_false_iff, Option.isNone_eq_false_iff, Option.isSome_iff_exists]

/-- An entry tells about its own module only. -/
theorem needsLoad_setEntry (e : CacheEntry) :
    (c.setEntry m e).needsLoad n =
      if n = m then e.dirty || e.kept.isNone else c.needsLoad n := by
  unfold needsLoad
  rw [entry_setEntry]
  split
  · rfl
  · rfl

/-- What is forgotten is no longer known; all else is. -/
theorem entry_remove (hc : c.poisoned = false) :
    (c.remove m).2.entry n = if n = m then {} else c.entry n := by
  unfold remove entry
  rw [if_neg (by simp [hc])]
  induction c.entries with
  | nil => simp
  | cons x xs ih =>
    obtain ⟨k, v⟩ := x
    by_cases hk : k = m
    · subst hk
      by_cases hn : n = k
      · simpa [hn] using ih
      · have hne : (n == k) = false := by simp [hn]
        simpa [hn, hne, List.lookup_cons] using ih
    · by_cases hn : n = k
      · simp [hn, hk]
      · have hne : (n == k) = false := by simp [hn]
        simpa [hk, hne, List.lookup_cons] using ih

/-- A clean module is given without a load. -/
theorem get_of_clean (hc : c.poisoned = false) {kept : Kept} (hkept : (c.entry m).kept = some kept)
    (hdirty : (c.entry m).dirty = false) (provider : Provider) :
    c.get provider m = (.value kept, c) := by
  simp [get, hc, hkept, hdirty]

/-- Any other is loaded. -/
theorem get_of_needsLoad (hc : c.poisoned = false) (h : c.needsLoad m = true)
    (provider : Provider) : c.get provider m = c.reload provider m := by
  unfold get
  rw [if_neg (by simp [hc])]
  split
  · next kept hkept hdirty =>
    have hclean := needsLoad_eq_false_iff.2 ⟨hdirty, kept, hkept⟩
    rw [h] at hclean
    cases hclean
  · rfl

/-- Every load is counted, also one that fails. -/
theorem loads_reload (provider : Provider) (m : String) :
    (c.reload provider m).2.loads = c.loads + 1 := by
  unfold reload
  cases provider m c.wait <;> rfl

/-- A mark changes the entry of one module. -/
theorem markDirty_eq (hc : c.poisoned = false) :
    c.markDirty m = (.value (), c.setEntry m { c.entry m with dirty := true }) := by
  simp [markDirty, hc]

/-- The functions of a module are those of the parse that is given. -/
theorem functions_eq (provider : Provider) (m : String) :
    c.functions provider m = ((c.get provider m).1.map fun kept =>
      Config.functions kept.parsed.entries, (c.get provider m).2) :=
  rfl

/-! ## Histories -/

/-- What is kept of a module behind a load of it is what was loaded. -/
theorem Faithful.reload (h : c.Faithful last) (hload : c.needsLoad m = true)
    (hanswer : provider m c.wait ≠ .crashed) :
    (c.reload provider m).2.Faithful fun n =>
      (c.loaded? n (.get provider m)).or (last n) := by
  have hothers : ∀ n, c.needsLoad n = false → ¬ (m = n ∧ c.needsLoad m = true) := by
    intro n hclean hsame
    obtain ⟨rfl, -⟩ := hsame
    rw [hload] at hclean
    cases hclean
  unfold ModuleCache.reload
  -- A load that fails keeps no parse, so the one of the last load stays.
  cases hprovider : provider m c.wait with
  | crashed => exact absurd hprovider hanswer
  | missing | failed e =>
    constructor
    · exact h.healthy
    · intro n hclean
      have hclean' : c.needsLoad n = false := hclean
      have hnone : c.loaded? n (.get provider m) = none := by simp [loaded?, hothers n hclean']
      rw [hnone]
      exact h.kept n hclean'
  | config root =>
    constructor
    · exact h.healthy
    · intro n hclean
      simp only [needsLoad_setEntry] at hclean
      simp only [entry_setEntry]
      by_cases hn : n = m
      · subst hn
        simp [loaded?, hload, hprovider]
      · rw [if_neg hn] at hclean
        have hclean' : c.needsLoad n = false := hclean
        have hnone : c.loaded? n (.get provider m) = none := by simp [loaded?, Ne.symm hn]
        rw [hnone, if_neg hn]
        exact h.kept n hclean'

/-- The cache stays faithful when a module is given, loaded or not. -/
theorem Faithful.get (h : c.Faithful last) (hanswer : provider m c.wait ≠ .crashed) :
    (c.get provider m).2.Faithful fun n => (c.loaded? n (.get provider m)).or (last n) := by
  by_cases hload : c.needsLoad m = true
  · rw [get_of_needsLoad h.healthy hload]
    exact h.reload hload hanswer
  · obtain ⟨hdirty, kept, hkept⟩ := needsLoad_eq_false_iff.1 (by simpa using hload)
    rw [get_of_clean h.healthy hkept hdirty]
    simpa [loaded?, hload] using h

/-- A call that makes a module dirty takes nothing from the others. -/
theorem Faithful.of_entry {d : ModuleCache} (h : c.Faithful last)
    (healthy : d.poisoned = false) (hdirty : d.needsLoad m = true)
    (hothers : ∀ n, n ≠ m → d.entry n = c.entry n) : d.Faithful last := by
  constructor
  · exact healthy
  · intro n hclean
    have hn : n ≠ m := by
      rintro rfl
      rw [hdirty] at hclean
      cases hclean
    have hsame := hothers n hn
    have hclean' : c.needsLoad n = false := by
      unfold needsLoad at hclean ⊢
      rwa [← hsame]
    rw [hsame]
    exact h.kept n hclean'

/-- A module that is marked needs a load. -/
theorem needsLoad_markDirty (hc : c.poisoned = false) : (c.markDirty m).2.needsLoad m = true := by
  rw [markDirty_eq hc, needsLoad_setEntry]
  simp

/-- So does one that is removed. -/
theorem needsLoad_remove (hc : c.poisoned = false) : (c.remove m).2.needsLoad m = true := by
  unfold needsLoad
  rw [entry_remove hc]
  simp

/-- Each call keeps the cache faithful. -/
theorem Faithful.after (h : c.Faithful last) {call : Call} (hanswer : call.Answered) :
    (c.after call).Faithful fun n => (c.loaded? n call).or (last n) := by
  cases call with
  | get provider m => exact h.get (hanswer m c.wait)
  | functions provider m => exact h.get (hanswer m c.wait)
  | markDirty m =>
    refine h.of_entry (m := m) ?_ (needsLoad_markDirty h.healthy) fun n hn => ?_
    · rw [ModuleCache.after, markDirty_eq h.healthy]
      exact h.healthy
    · simp [ModuleCache.after, markDirty_eq h.healthy, entry_setEntry, hn]
  | remove m =>
    refine h.of_entry (m := m) ?_ (needsLoad_remove h.healthy) fun n hn => ?_
    · simp [ModuleCache.after, ModuleCache.remove, h.healthy]
    · simp [ModuleCache.after, entry_remove h.healthy, hn]
  | isDirty m => exact h

/-- The cache is faithful after any calls that are answered. -/
theorem Faithful.run (h : c.Faithful last) {calls : List Call}
    (hanswers : ∀ call ∈ calls, call.Answered) :
    (c.run calls).Faithful fun n => (c.lastLoad n calls).or (last n) := by
  induction calls generalizing c last with
  | nil => exact h
  | cons call calls ih =>
    have hfirst := h.after (hanswers call List.mem_cons_self)
    have hrest := ih hfirst fun other hother => hanswers other (List.mem_cons_of_mem _ hother)
    simpa [ModuleCache.run, lastLoad, Option.or_assoc] using hrest

/-- A module leaves the dirty ones only where it is loaded. -/
theorem Faithful.loaded_of_clean (h : c.Faithful last) {call : Call}
    (hdirty : c.needsLoad m = true) (hclean : (c.after call).needsLoad m = false) :
    (c.loaded? m call).isSome = true := by
  have hget (provider : Provider) (n : String)
      (hclean : (c.get provider n).2.needsLoad m = false) :
      (c.loaded? m (.get provider n)).isSome = true := by
    by_cases hload : c.needsLoad n = true
    · rw [get_of_needsLoad h.healthy hload, ModuleCache.reload] at hclean
      -- Only an answer with a source changes what is known, and only of the module asked for.
      cases hprovider : provider n c.wait with
      | config root =>
        simp only [hprovider, needsLoad_setEntry] at hclean
        by_cases hn : m = n
        · subst hn
          simp [loaded?, hload, hprovider]
        · rw [if_neg hn] at hclean
          have hclean' : c.needsLoad m = false := hclean
          rw [hdirty] at hclean'
          cases hclean'
      | missing | failed e | crashed =>
        simp only [hprovider] at hclean
        have hclean' : c.needsLoad m = false := hclean
        rw [hdirty] at hclean'
        cases hclean'
    · obtain ⟨hdirty', kept, hkept⟩ := needsLoad_eq_false_iff.1 (by simpa using hload)
      rw [get_of_clean h.healthy hkept hdirty', hdirty] at hclean
      cases hclean
  cases call with
  | get provider n => exact hget provider n hclean
  | functions provider n => exact hget provider n hclean
  | markDirty n =>
    rw [ModuleCache.after, markDirty_eq h.healthy, needsLoad_setEntry, hdirty] at hclean
    simp at hclean
  | remove n =>
    rw [ModuleCache.after, needsLoad, entry_remove h.healthy] at hclean
    rw [needsLoad] at hdirty
    split at hclean
    · simp at hclean
    · rw [hdirty] at hclean
      cases hclean
  | isDirty n =>
    rw [ModuleCache.after, hdirty] at hclean
    cases hclean

/-- A faithful cache does what is said of the next call. -/
theorem Faithful.serves (h : c.Faithful last) : c.Serves last where
  isDirty m := by simp [ModuleCache.isDirty, h.healthy]
  clean m hclean := by
    obtain ⟨hdirty, kept, hkept⟩ := needsLoad_eq_false_iff.1 hclean
    refine ⟨kept, ?_, get_of_clean h.healthy hkept hdirty⟩
    rw [h.kept m hclean, hkept]
  loads m provider hload := by
    rw [get_of_needsLoad h.healthy hload]
    exact loads_reload provider m
  config m provider root hload hprovider := by
    rw [get_of_needsLoad h.healthy hload, ModuleCache.reload, hprovider]
    constructor
    · rfl
    · simp [needsLoad_setEntry]
  missing m provider hload hprovider := by
    rw [get_of_needsLoad h.healthy hload, ModuleCache.reload, hprovider]
    exact ⟨rfl, hload⟩
  failed m provider e hload hprovider := by
    rw [get_of_needsLoad h.healthy hload, ModuleCache.reload, hprovider]
    exact ⟨rfl, hload⟩
  staysDirty m call hdirty hclean := h.loaded_of_clean hdirty hclean
  markDirty m := by
    refine ⟨?_, ?_, needsLoad_markDirty h.healthy⟩
    · rw [markDirty_eq h.healthy]
    · rw [markDirty_eq h.healthy]
      rfl
  remove m := by
    refine ⟨?_, ?_, needsLoad_remove h.healthy⟩
    · simp [ModuleCache.remove, h.healthy]
    · simp [ModuleCache.remove, h.healthy]
  functions m provider := by
    rw [functions_eq]
    exact ⟨rfl, rfl⟩

/-- Whatever was called before, the next call to a cache loads a module just if it is dirty, and
otherwise gives the parse of the last load. -/
theorem serves_run (wait : Text.Duration) (calls : List Call)
    (hanswers : ∀ call ∈ calls, call.Answered) :
    (({ wait } : ModuleCache).run calls).Serves
      fun m => ({ wait } : ModuleCache).lastLoad m calls := by
  have hfresh : ({ wait } : ModuleCache).Faithful fun _ => none := by
    constructor
    · rfl
    · intro m hclean
      cases hclean
  have hrun := hfresh.run hanswers
  simp only [Option.or_none] at hrun
  exact hrun.serves

/-- A module that is loaded and marked dirty, and cannot be loaded again at first. -/
def failedReload : List Call := [
  .get (fun _ _ => .config ⟨"description.ext", "class A {};"⟩) "main",
  .markDirty "main",
  .functions (fun m _ => .failed (.provider m "locked")) "main",
  .isDirty "main"]

/-- The parse from before the failure is still there, but the module is dirty, so that parse is not
given any more. -/
theorem serves_run_failedReload :
    (∀ call ∈ failedReload, call.Answered) ∧
      ((({} : ModuleCache).run failedReload).entry "main").kept.isSome = true ∧
      (({} : ModuleCache).run failedReload).needsLoad "main" = true ∧
      (({} : ModuleCache).run failedReload).Serves
        fun m => ({} : ModuleCache).lastLoad m failedReload := by
  have hanswers : ∀ call ∈ failedReload, call.Answered := by
    simp [failedReload, Call.Answered]
  exact ⟨hanswers, rfl, rfl, serves_run (.ofSeconds 15) failedReload hanswers⟩

end Sqf.ModuleCache
