import Mathlib
import Sqf.Proofs.Command.Resolution

/-!
# Extending a table

Extending one table with another is declaring the signatures of the first and then those of the
second. The overloads may as well be kept by key, which is a name in lower case and an arity. The
keys of the other table then come in no particular order, but each brings all its overloads, so that
nothing changes for look-ups (`extend_declared`).
-/

namespace Sqf

/-- What overloads are looked up by. -/
structure Key where
  /-- The name of the command in lower case. -/
  name : String
  arity : Arity
deriving DecidableEq

/-- The key under which a signature is found. -/
def Signature.key (s : Signature) : Key := ⟨s.name.toLower, s.arity⟩

/-- The signatures with one key, in order. -/
def Signature.withKey (key : Key) (ss : List Signature) : List Signature :=
  ss.filter fun s => s.key = key

open Signature (withKey)

/-- The overloads of a name and an arity are the signatures with their key. -/
theorem Table.overloads_eq_withKey (t : Table) (name : String) (arity : Arity) :
    t.overloads name arity = withKey ⟨name.toLower, arity⟩ t.signatures := by
  rw [overloads_eq, withKey]
  refine List.filter_congr fun s _ => ?_
  rw [Bool.eq_iff_iff]
  simp [Signature.key, sameName, and_comm]

/-! ## Overloads by key -/

/-- Signatures in groups by key. The groups stand in no particular order. -/
abbrev KeyedTable := AList fun _ : Key => List Signature

namespace KeyedTable

/-- The signatures with a key. -/
def group (m : KeyedTable) (key : Key) : List Signature := (m.lookup key).getD []

/-- The table with more signatures for a key, behind those it has. -/
def add (m : KeyedTable) (key : Key) (ss : List Signature) : KeyedTable :=
  AList.insert key (m.group key ++ ss) m

/-- The table of signatures that are added one by one. -/
def ofSignatures (ss : List Signature) : KeyedTable :=
  ss.foldl (fun m s => m.add s.key [s]) ∅

/-- The table with the groups of another one added, in the order in which they stand there. -/
def extend (m n : KeyedTable) : KeyedTable := n.foldl add m

/-- The overloads of a command in an arity. -/
def overloads (m : KeyedTable) (name : String) (arity : Arity) : List Signature :=
  m.group ⟨name.toLower, arity⟩

/-- Number of signatures. -/
def size (m : KeyedTable) : Nat := (m.entries.map fun g => g.2.length).sum

/-- Whether there are no groups. -/
def isEmpty (m : KeyedTable) : Bool := m.entries.isEmpty

variable {m n : KeyedTable} {key : Key} {ss us : List Signature}

theorem lookup_add (m : KeyedTable) (key : Key) (ss : List Signature) (other : Key) :
    (m.add key ss).lookup other = if other = key then some (m.group key ++ ss) else
      m.lookup other := by
  unfold add
  split
  · next h =>
    subst h
    exact AList.lookup_insert m
  · next h => exact AList.lookup_insert_ne h

/-- Adding to one key changes its overloads only. -/
theorem group_add (m : KeyedTable) (key : Key) (ss : List Signature) (other : Key) :
    (m.add key ss).group other = if other = key then m.group key ++ ss else m.group other := by
  unfold group
  rw [lookup_add]
  split <;> rfl

/-- The table holds these signatures: each group is what has its key, in order, and no group is
without signatures. -/
structure Keeps (m : KeyedTable) (ss : List Signature) : Prop where
  group_eq : ∀ key, m.group key = withKey key ss
  ne_nil : ∀ key, m.lookup key ≠ some []

theorem keeps_nil : Keeps ∅ [] := by
  constructor
  · intro key
    simp [group, withKey]
  · intro key
    simp

/-- A step of loading. -/
theorem Keeps.add (h : m.Keeps ss) (s : Signature) : (m.add s.key [s]).Keeps (ss ++ [s]) := by
  constructor
  · intro key
    rw [group_add, h.group_eq, h.group_eq, withKey, withKey, withKey, List.filter_append]
    by_cases hkey : key = s.key
    · simp [hkey]
    · simp [hkey, eq_comm]
  · intro key
    rw [lookup_add]
    split
    · simp
    · exact h.ne_nil key

/-- Signatures that are added one by one are all kept. -/
theorem keeps_ofSignatures (ss : List Signature) : (ofSignatures ss).Keeps ss := by
  have hall (us : List Signature) {m : KeyedTable} {ss : List Signature} (h : m.Keeps ss) :
      (us.foldl (fun m s => m.add s.key [s]) m).Keeps (ss ++ us) := by
    induction us generalizing m ss with
    | nil => rwa [List.append_nil]
    | cons s us ih =>
      have hrest := ih (h.add s)
      rwa [List.append_assoc] at hrest
  exact hall ss keeps_nil

/-- A key brings its group with it, and no key comes twice. -/
theorem group_extend (m n : KeyedTable) (key : Key) :
    (m.extend n).group key = m.group key ++ n.group key := by
  -- The keys of the other table come in the order of its entries; each of them comes once, so the
  -- order does not matter.
  have hall (groups : List (Sigma fun _ : Key => List Signature)) (h : groups.NodupKeys)
      (m : KeyedTable) : (groups.foldl (fun m g => m.add g.1 g.2) m).group key =
        m.group key ++ (groups.dlookup key).getD [] := by
    induction groups generalizing m with
    | nil => simp
    | cons g groups ih =>
      obtain ⟨hfresh, hrest⟩ := List.nodupKeys_cons.1 h
      rw [List.foldl_cons, ih hrest, group_add]
      by_cases hkey : key = g.1
      · subst hkey
        rw [List.dlookup_eq_none.2 hfresh, List.dlookup_cons_eq]
        simp
      · rw [List.dlookup_cons_ne _ _ hkey, if_neg hkey]
  exact hall n.entries n.nodupKeys m

/-- No key is left without overloads. -/
theorem lookup_extend_ne_nil (hm : ∀ key, m.lookup key ≠ some [])
    (hn : ∀ key, n.lookup key ≠ some []) (key : Key) : (m.extend n).lookup key ≠ some [] := by
  have hall (groups : List (Sigma fun _ : Key => List Signature)) (h : ∀ g ∈ groups, g.2 ≠ [])
      {m : KeyedTable} (hm : ∀ key, m.lookup key ≠ some []) :
      (groups.foldl (fun m g => m.add g.1 g.2) m).lookup key ≠ some [] := by
    induction groups generalizing m with
    | nil => exact hm key
    | cons g groups ih =>
      obtain ⟨hg, hgroups⟩ := List.forall_mem_cons.1 h
      refine ih hgroups fun other => ?_
      rw [lookup_add]
      split
      · simp [hg]
      · exact hm other
  refine hall n.entries (fun g hg hnil => ?_) hm
  have hlookup : n.lookup g.1 = some g.2 := AList.mem_lookup_iff.2 hg
  exact hn g.1 (hnil ▸ hlookup)

/-- A step of merging: in whatever order the keys come. -/
theorem Keeps.extend (hm : m.Keeps ss) (hn : n.Keeps us) : (m.extend n).Keeps (ss ++ us) := by
  constructor
  · intro key
    rw [group_extend, hm.group_eq, hn.group_eq, withKey, withKey, withKey, List.filter_append]
  · exact lookup_extend_ne_nil hm.ne_nil hn.ne_nil

namespace Keeps

/-- The keys are those of the signatures. -/
theorem mem_iff (h : m.Keeps ss) : key ∈ m ↔ key ∈ ss.map Signature.key := by
  have hgroup : m.group key = [] ↔ key ∉ m := by
    rw [← AList.lookup_eq_none, group]
    cases hlookup : m.lookup key with
    | none => simp
    | some rs =>
      have hne : rs ≠ [] := fun hnil => h.ne_nil key (hnil ▸ hlookup)
      simp [hne]
  rw [← not_iff_not, ← hgroup, h.group_eq, withKey, List.filter_eq_nil_iff]
  simp

/-- All signatures are in groups, and none is in two. -/
theorem size_eq (h : m.Keeps ss) : m.size = ss.length := by
  -- Each key has as many overloads as signatures have it, so the sum over the keys counts them all.
  have hlength : ∀ g ∈ m.entries, g.2.length = (ss.map Signature.key).count g.1 := by
    intro g hg
    have hlookup : m.lookup g.1 = some g.2 := AList.mem_lookup_iff.2 hg
    have hgroup : g.2 = withKey g.1 ss := by rw [← h.group_eq, group, hlookup, Option.getD_some]
    rw [hgroup, withKey, List.count_eq_length_filter, List.filter_map, List.length_map]
    refine congrArg List.length (List.filter_congr fun s _ => ?_)
    rw [Bool.eq_iff_iff]
    simp
  have hkeys : m.keys.Perm (ss.map Signature.key).dedup :=
    (List.perm_ext_iff_of_nodup m.keys_nodup (List.nodup_dedup _)).2 fun key => by
      rw [List.mem_dedup, ← h.mem_iff, AList.mem_keys]
  calc m.size
      = (m.entries.map fun g => (ss.map Signature.key).count g.1).sum := by
        rw [size, List.map_congr_left hlength]
    _ = (m.keys.map fun key => (ss.map Signature.key).count key).sum := by
        rw [AList.keys, List.keys, List.map_map]
        rfl
    _ = ((ss.map Signature.key).dedup.map fun key => (ss.map Signature.key).count key).sum :=
        (hkeys.map _).sum_eq
    _ = ss.length := by rw [List.sum_map_count_dedup_eq_length, List.length_map]

/-- A table without keys has no overloads. -/
theorem isEmpty_iff (h : m.Keeps ss) : m.isEmpty = true ↔ m.size = 0 := by
  constructor
  · intro hempty
    rw [size, List.isEmpty_iff.1 hempty]
    rfl
  · intro hsize
    rw [h.size_eq, List.length_eq_zero_iff] at hsize
    rw [isEmpty, List.isEmpty_iff, List.eq_nil_iff_forall_not_mem]
    intro g hg
    have hkey : g.1 ∈ m := AList.mem_keys.2 (List.mem_keys_of_mem hg)
    rw [h.mem_iff, hsize] at hkey
    cases hkey

end Keeps

end KeyedTable

/-! ## Extending a loaded table -/

namespace Table

/-- Lists of descriptors that make tables make one together. -/
theorem ofDescriptors_append {ds es : List Descriptor} {ss us : List (List Signature)}
    (hds : ds.mapM Descriptor.toSignatures = .ok ss)
    (hes : es.mapM Descriptor.toSignatures = .ok us) :
    Table.ofDescriptors (ds ++ es) = .ok (.ofSignatures (ss.flatten ++ us.flatten)) := by
  have hboth : (ds ++ es).mapM Descriptor.toSignatures = .ok (ss ++ us) := by
    rw [List.mapM_append]
    exact bind_eq_ok_iff.2 ⟨ss, hds, bind_eq_ok_iff.2 ⟨us, hes, rfl⟩⟩
  refine bind_eq_ok_iff.2 ⟨ss ++ us, hboth, ?_⟩
  rw [List.flatten_append]
  rfl

/-- What is found first is found first with more overloads behind. -/
theorem found_append {t : Table} (u : Table) {name : String} {arity : Arity}
    {supplied : List ValueType} {s : Signature} (h : t.resolve name arity supplied = .found s) :
    (t ++ u).resolve name arity supplied = .found s := by
  rw [resolve_eq_found_iff, firstToAccept_iff] at h ⊢
  rw [overloads_append, List.find?_append, h, Option.some_or]

theorem size_eq (t : Table) : t.size = t.signatures.length := by
  rw [signatures, List.length_map, size]

/-- A table that is extended has the overloads of the descriptors of both, those of the first list
first, as if they had been loaded from one list. It has as many signatures as both, and none only
if it is empty. What a call came to, it still comes to. If the overloads are kept by key, merging
the groups of the one table into those of the other leads to the same. -/
theorem extend_declared {ds es : List Descriptor} {t u : Table}
    (ht : Table.ofDescriptors ds = .ok t) (hu : Table.ofDescriptors es = .ok u) :
    ∃ ss us whole, ds.mapM Descriptor.toSignatures = .ok ss ∧
      es.mapM Descriptor.toSignatures = .ok us ∧ Table.ofDescriptors (ds ++ es) = .ok whole ∧
      (∀ name arity,
        (t ++ u).overloads name arity = whole.overloads name arity ∧
        (t ++ u).overloads name arity =
          withKey ⟨name.toLower, arity⟩ ss.flatten ++ withKey ⟨name.toLower, arity⟩ us.flatten) ∧
      (t ++ u).size = t.size + u.size ∧
      ((t ++ u).isEmpty = true ↔ (t ++ u).size = 0) ∧
      (∀ name arity supplied s, t.resolve name arity supplied = .found s →
        (t ++ u).resolve name arity supplied = .found s) ∧
      ∀ m n : KeyedTable, m.Keeps ss.flatten → n.Keeps us.flatten →
        (∀ name arity, (m.extend n).overloads name arity = (t ++ u).overloads name arity) ∧
        (m.extend n).size = m.size + n.size ∧ (m.extend n).size = (t ++ u).size ∧
        ((m.extend n).isEmpty = true ↔ (m.extend n).size = 0) := by
  obtain ⟨ss, hss, htable⟩ := exists_of_ofDescriptors ht
  obtain ⟨us, hus, hutable⟩ := exists_of_ofDescriptors hu
  -- All that follows is about the signatures of the table, first those of one and then those of the
  -- other.
  have hboth : (t ++ u).signatures = ss.flatten ++ us.flatten := by
    rw [signatures_append, htable, hutable]
  have hsize : (t ++ u).size = t.size + u.size := by
    simp [size_eq]
  refine ⟨ss, us, _, hss, hus, ofDescriptors_append hss hus, ?_, hsize, ?_, ?_, ?_⟩
  · intro name arity
    rw [overloads_eq_withKey, overloads_eq_withKey, signatures_ofSignatures, hboth]
    exact ⟨rfl, List.filter_append ..⟩
  · rw [isEmpty, size, List.isEmpty_iff, List.length_eq_zero_iff]
  · exact fun _ _ _ _ h => found_append u h
  · intro m n hm hn
    have hmerged := hm.extend hn
    refine ⟨fun name arity => ?_, ?_, ?_, hmerged.isEmpty_iff⟩
    · rw [KeyedTable.overloads, hmerged.group_eq, overloads_eq_withKey, hboth]
    · rw [hmerged.size_eq, hm.size_eq, hn.size_eq, List.length_append]
    · rw [hmerged.size_eq, size_eq, hboth]

/-- A command for numbers gets an overload for strings, under a name in other letters. -/
theorem extend_declared_combine :
    let numbers : Signature := ⟨"combine", .binary, some ⟨.number, "", false⟩,
      some ⟨.number, "", false⟩, .number⟩
    let strings : Signature := ⟨"COMBINE", .binary, some ⟨.string, "", false⟩,
      some ⟨.string, "", false⟩, .string⟩
    let first : List Descriptor := [⟨"combine", [⟨some "number", some "number", "number"⟩]⟩]
    let second : List Descriptor := [⟨"COMBINE", [⟨some "string", some "string", "string"⟩]⟩]
    Table.ofDescriptors first = .ok (.ofSignatures [numbers]) ∧
      Table.ofDescriptors second = .ok (.ofSignatures [strings]) ∧
      (Table.ofSignatures [numbers] ++ .ofSignatures [strings]).resolve "combine" .binary
        [.number, .number] = .found numbers ∧
      ((KeyedTable.ofSignatures [numbers]).extend (.ofSignatures [strings])).overloads "combine"
        .binary = [numbers, strings] := by
  intro numbers strings first second
  have hfirst : Table.ofDescriptors first = .ok (.ofSignatures [numbers]) := rfl
  have hsecond : Table.ofDescriptors second = .ok (.ofSignatures [strings]) := rfl
  obtain ⟨ss, us, whole, hss, hus, -, hoverloads, -, -, hfound, hkeyed⟩ :=
    extend_declared hfirst hsecond
  obtain rfl : ss = [[numbers]] := Except.ok.inj (hss.symm.trans rfl)
  obtain rfl : us = [[strings]] := Except.ok.inj (hus.symm.trans rfl)
  have hname : "COMBINE".toLower = "combine".toLower := by
    have hletters : ("COMBINE".map Char.toLower).toList = ("combine".map Char.toLower).toList := by
      simp
    exact String.toList_inj.1 hletters
  refine ⟨hfirst, hsecond, hfound _ _ _ _ ?_, ?_⟩
  · rw [resolve_eq_found_iff, overloads_eq]
    refine ⟨[], [], ?_, ?_, List.forall_mem_nil _⟩
    · simp [numbers, sameName]
    · exact .cons (by decide) (.cons (by decide) .nil)
  · have hmerged := (hkeyed (.ofSignatures [numbers]) (.ofSignatures [strings])
      (KeyedTable.keeps_ofSignatures _) (KeyedTable.keeps_ofSignatures _)).1
    rw [hmerged, (hoverloads _ _).2]
    simp [withKey, Signature.key, numbers, strings, hname]

end Table

end Sqf
