import Sqf.Proofs.Config.ClassEnd
import Sqf.Proofs.Config.Places
import Sqf.Proofs.Config.RoundTrip
import Sqf.Proofs.Parse.NestingLimit

/-!
# How deeply classes and arrays are nested

A class whose entries are read, and an array, takes one of the levels that its entries or items
may have (`Entry.Nests`). So none of them is inside of more than 127 others. A class that is
only announced has no brace and takes no level: it may stand in the innermost of 128 classes
(`announced_in_limit`).
-/

namespace Sqf.Config

open Parse (Invariant Upholds UpholdsOrFails State kind advance)

/-! ## Levels -/

/-- The arrays of a value are nested to `n` levels at most. -/
inductive Value.Nests : Nat → Value → Prop where
  | flat {n : Nat} {v : Value} (h : ∀ items, v ≠ .array items) : Nests n v
  | array {n : Nat} {items : List Value} (h : ∀ v ∈ items, Nests n v) :
    Nests (n + 1) (.array items)

/-- The classes and arrays of an entry are nested to `n` levels at most; a class that is only
announced has no entries and takes no level. -/
inductive Entry.Nests : Nat → Entry → Prop where
  | property {n : Nat} {p : Property} (h : p.value.Nests n) : Nests n (.property p)
  | forward {n : Nat} {c : Class} (h : c.isForward = true) (hnone : c.entries = []) :
    Nests n (.nested c)
  | nested {n : Nat} {c : Class} (h : c.isForward = false) (hentries : ∀ e ∈ c.entries, Nests n e) :
    Nests (n + 1) (.nested c)

section Values

variable {source : List Char} {n : Nat} {array : Attempt Value}

theorem number_nests (negative : Bool) (s : State) :
    UpholdsOrFails .trivial (number negative) (Value.Nests n) s := by
  refine (UpholdsOrFails.expect trivial _).bind fun t u _ _ => ?_
  split
  · exact UpholdsOrFails.pure trivial (.flat nofun)
  · exact UpholdsOrFails.throw trivial trivial

/-- A value nests as deeply as its arrays may. -/
theorem valueWith_nests (harray : ∀ s, UpholdsOrFails .trivial array (Value.Nests n) s)
    (s : State) : UpholdsOrFails .trivial (valueWith source array) (Value.Nests n) s := by
  refine UpholdsOrFails.kind_bind ?_
  split
  · exact UpholdsOrFails.advance_bind trivial fun _ => UpholdsOrFails.pure trivial (.flat nofun)
  · exact number_nests false s
  · exact UpholdsOrFails.advance_bind trivial fun _ => number_nests true _
  · exact harray s
  · split
    · exact UpholdsOrFails.failUnexpected trivial _
    · exact ⟨trivial, .flat nofun⟩

/-- An array takes one of the levels that its items may have. -/
theorem array_nests (source : List Char) (n : Nat) (s : State) :
    UpholdsOrFails .trivial (Config.array source n) (Value.Nests n) s := by
  induction n generalizing s with
  | zero => exact tooDeep_upholds trivial
  | succ n ih =>
    refine UpholdsOrFails.advance_bind trivial fun _ => ?_
    refine (Parse.commaList_upholds (by decide) _ (fun t _ => valueWith_nests ih t) _ trivial).bind
      fun items u _ hitems => ?_
    exact UpholdsOrFails.advance_bind trivial fun _ => UpholdsOrFails.pure trivial (.array hitems)

end Values

section Entries

variable {n m : Nat} {body : Attempt (List Entry)} {value : Attempt Value}
  (hbody : ∀ s, UpholdsOrFails .trivial body (fun es => ∃ m, n = m + 1 ∧ ∀ e ∈ es, e.Nests m) s)
  (hvalue : ∀ s, UpholdsOrFails .trivial value (Value.Nests n) s)

include hvalue in
/-- A property nests as its value does. -/
theorem property_nests (s : State) :
    UpholdsOrFails .trivial (property value) (fun p => Entry.Nests n (.property p)) s := by
  refine UpholdsOrFails.advance_bind trivial fun _ => ?_
  refine (brackets_upholds trivial).bind fun isArray t _ _ => ?_
  refine (assignment_upholds trivial isArray).bind fun appends u _ _ =>
    UpholdsOrFails.kind_bind ?_
  split
  · exact ⟨trivial, trivial⟩
  · refine (hvalue u).bind fun v w _ hv => ?_
    refine UpholdsOrFails.spanFrom_bind trivial trivial fun span _ => ?_
    exact UpholdsOrFails.lift_bind (terminator_upholds trivial trivial) fun _ x _ _ =>
      UpholdsOrFails.pure trivial (.property hv)

include hbody

/-- A class nests as its body does. -/
theorem classWith_nests (s : State) :
    UpholdsOrFails .trivial (classWith body) (fun c => Entry.Nests n (.nested c)) s := by
  refine UpholdsOrFails.advance_bind trivial fun _ => ?_
  refine (name_upholds trivial _).bind fun _ t _ _ => ?_
  refine (parent_upholds trivial).bind fun _ u _ _ => UpholdsOrFails.kind_bind ?_
  split
  · exact UpholdsOrFails.advance_bind trivial fun _ =>
      UpholdsOrFails.pure trivial (.forward rfl rfl)
  · refine (hbody u).bind fun es v _ hes => ?_
    obtain ⟨m, rfl, hes⟩ := hes
    exact UpholdsOrFails.lift_bind (closing_upholds trivial) fun _ w _ _ =>
      UpholdsOrFails.pure trivial (.nested rfl hes)
  · exact UpholdsOrFails.failUnexpected trivial _

include hvalue

/-- So does any entry. -/
theorem entry_nests (s : State) :
    UpholdsOrFails .trivial (entry body value) (Entry.Nests n) s := by
  refine UpholdsOrFails.state_bind ?_
  dsimp only
  split
  · exact UpholdsOrFails.failUnexpected trivial _
  split
  · exact (classWith_nests hbody s).bind fun c t _ hc => UpholdsOrFails.pure trivial hc
  · exact (property_nests hvalue s).bind fun p t _ hp => UpholdsOrFails.pure trivial hp

/-- All entries of a loop nest alike. -/
theorem entriesWith_nests (s : State) : ∀ e ∈ (entriesWith body value s).value, e.Nests n := by
  have hturn (t : State) : Upholds .trivial (turn body value)
      (fun found => ∀ step ∈ found, ∀ e ∈ step, e.Nests n) t := by
    have hturned := turned_turn body value t
    refine ⟨trivial, fun found hfound e he => ?_⟩
    rw [hfound] at hturned
    cases he
    generalize (turn body value t).next = u at hturned
    cases hturned with
    | read _ hok =>
      have hread := (entry_nests hbody hvalue t).2
      rw [hok] at hread
      exact hread
  have hmany := (Parse.many_upholds (fun t _ => hturn t) s trivial).2
  intro e he
  obtain ⟨found, hfound, he⟩ := List.mem_filterMap.1 he
  exact hmany found hfound e he

end Entries

/-- The body of a class takes a level from its entries. -/
theorem body_nests (source : List Char) (n : Nat) (s : State) :
    UpholdsOrFails .trivial (body source n)
      (fun es => ∃ m, n = m + 1 ∧ ∀ e ∈ es, e.Nests m) s := by
  induction n generalizing s with
  | zero => exact tooDeep_upholds trivial
  | succ n ih =>
    refine UpholdsOrFails.advance_bind trivial fun _ => ?_
    exact ⟨trivial, n, rfl, entriesWith_nests ih (valueWith_nests (array_nests source n)) _⟩

theorem topEntries_nest (source : List Char) (s : State) :
    ∀ e ∈ (topEntries source s).value, e.Nests Parse.maxNesting :=
  entriesWith_nests (body_nests source _) (valueWith_nests (array_nests source _)) s

/-- The entries of a file nest at most as deeply as the limit says. -/
theorem parse_nests (source : String) :
    ∀ e ∈ (parse source).entries, e.Nests Parse.maxNesting := by
  have hstray (t : State) : Upholds .trivial (strayTurn source.toList)
      (fun found => ∀ es ∈ found, ∀ e ∈ es, e.Nests Parse.maxNesting) t := by
    refine Upholds.kind_bind ?_
    split
    · exact Upholds.pure trivial nofun
    · refine Upholds.reportUnexpected_bind trivial fun u _ => ?_
      refine Upholds.advance_bind trivial fun _ => ?_
      exact Upholds.bind (P := fun es => ∀ e ∈ es, e.Nests Parse.maxNesting)
        ⟨trivial, topEntries_nest source.toList _⟩ fun es v _ hes =>
          Upholds.pure trivial fun _ hsome => Option.some.inj hsome ▸ hes
  intro e he
  rcases List.mem_append.1 he with he | he
  · exact topEntries_nest source.toList _ e he
  · obtain ⟨es, hes, he⟩ := List.mem_flatten.1 he
    exact (Parse.many_upholds (fun t _ => hstray t) _ trivial).2 es hes e he

/-! ## Depth -/

/-- Entries that are inside of `d` classes. -/
inductive AtDepth (file : List Entry) : Nat → List Entry → Prop where
  | file : AtDepth file 0 file
  | inside {d : Nat} {es : List Entry} {c : Class} (h : AtDepth file d es)
    (hc : .nested c ∈ es) : AtDepth file (d + 1) c.entries

/-- A value that is inside of `d` classes and arrays. -/
inductive ValueAtDepth (file : List Entry) : Nat → Value → Prop where
  | property {d : Nat} {es : List Entry} {p : Property} (h : AtDepth file d es)
    (hp : .property p ∈ es) : ValueAtDepth file d p.value
  | item {d : Nat} {items : List Value} {v : Value} (h : ValueAtDepth file d (.array items))
    (hv : v ∈ items) : ValueAtDepth file (d + 1) v

section Depth

variable {file es : List Entry} {limit d : Nat} (hfile : ∀ e ∈ file, e.Nests limit)

include hfile

/-- Each class around an entry takes a level. -/
theorem AtDepth.nests (h : AtDepth file d es) :
    ∀ e ∈ es, d ≤ limit ∧ e.Nests (limit - d) := by
  induction h with
  | file => exact fun e he => ⟨Nat.zero_le _, hfile e he⟩
  | @inside d es c h hc ih =>
    obtain ⟨hle, hnests⟩ := ih _ hc
    generalize hlevels : limit - d = levels at hnests
    cases hnests with
    | forward _ hnone =>
      rw [hnone]
      exact nofun
    | @nested n _ _ hentries =>
      have hbelow : limit - (d + 1) = n := by omega
      rw [hbelow]
      exact fun e he => ⟨by omega, hentries e he⟩

/-- What is inside of so many others may nest as much less. -/
theorem ValueAtDepth.nests {v : Value} (h : ValueAtDepth file d v) :
    d ≤ limit ∧ v.Nests (limit - d) := by
  induction h with
  | @property d es p h hp =>
    obtain ⟨hle, hnests⟩ := h.nests hfile _ hp
    generalize limit - d = levels at hnests ⊢
    cases hnests with
    | property hvalue => exact ⟨hle, hvalue⟩
  | @item d items v _ hv ih =>
    obtain ⟨hle, hnests⟩ := ih
    generalize hlevels : limit - d = levels at hnests
    cases hnests with
    | flat hflat => exact absurd rfl (hflat items)
    | @array n _ hitems =>
      have hbelow : limit - (d + 1) = n := by omega
      rw [hbelow]
      exact ⟨by omega, hitems v hv⟩

/-- A class is inside of as many others as there are levels only if it is just announced. -/
theorem AtDepth.class_le (h : AtDepth file d es) {c : Class} (hc : .nested c ∈ es) :
    d ≤ limit ∧ (c.isForward = false → d < limit) := by
  obtain ⟨hle, hnests⟩ := h.nests hfile _ hc
  refine ⟨hle, fun hforward => ?_⟩
  generalize hlevels : limit - d = levels at hnests
  cases hnests with
  | forward h _ =>
    rw [hforward] at h
    cases h
  | nested _ _ => omega

/-- An array needs a level of its own, so it is inside of fewer. -/
theorem ValueAtDepth.array_lt {items : List Value} (h : ValueAtDepth file d (.array items)) :
    d < limit := by
  obtain ⟨hle, hnests⟩ := h.nests hfile
  generalize hlevels : limit - d = levels at hnests
  cases hnests with
  | flat hflat => exact absurd rfl (hflat items)
  | array _ => omega

end Depth

/-! ## A class in the innermost of 128 -/

/-- A class that is announced in the innermost of `n` classes. -/
def announcedIn : Nat → Entry
  | 0 => .nested ⟨"B", none, [], true, {}⟩
  | n + 1 => .nested ⟨"A", none, [announcedIn n], false, {}⟩

/-- A class that is announced in the innermost of some classes can be written with as many
levels. -/
theorem writable_announcedIn (numeral : Double → String) (n : Nat) :
    (announcedIn n).Writable numeral n := by
  induction n with
  | zero => exact .forward (by decide) nofun
  | succ n ih => exact .nested (by decide) nofun (List.forall_mem_singleton.2 ih)

/-- Entries are at the same depths in files that are the same up to spans. -/
theorem AtDepth.of_unplaced {file file' : List Entry} {d : Nat} {es : List Entry}
    (hsame : file'.map Entry.unplaced = file.map Entry.unplaced) (h : AtDepth file d es) :
    ∃ es', AtDepth file' d es' ∧ es'.map Entry.unplaced = es.map Entry.unplaced := by
  induction h with
  | file => exact ⟨file', .file, hsame⟩
  | @inside d es c _ hc ih =>
    obtain ⟨es', hes', hmap⟩ := ih
    obtain ⟨e', he', hunplaced⟩ := List.mem_map.1 (hmap ▸ List.mem_map_of_mem hc)
    cases e' with
    | property p => cases hunplaced
    | nested c' =>
      refine ⟨c'.entries, hes'.inside he', ?_⟩
      cases c
      cases c'
      injection hunplaced with hclass
      injection hclass with _ _ hentries
      rwa [unplacedAll_eq_map, unplacedAll_eq_map] at hentries

/-- There it is inside of all of them. -/
theorem atDepth_announcedIn {file : List Entry} {d n : Nat} (h : AtDepth file d [announcedIn n]) :
    AtDepth file (d + n) [announcedIn 0] := by
  induction n generalizing d with
  | zero => exact h
  | succ n ih =>
    rw [Nat.add_comm n, ← Nat.add_assoc]
    exact ih (h.inside (List.mem_singleton_self _))

/-- A class is read that is inside of 128 others. -/
theorem announced_in_limit :
    ∃ es c, AtDepth (parse (print (fun _ => "") [announcedIn 128])).entries 128 es ∧
      .nested c ∈ es ∧ ¬ 128 ≤ Parse.maxNesting - 1 := by
  have hread := (parse_print (fun _ => "") [announcedIn 128]
    (List.forall_mem_singleton.2 (writable_announcedIn _ 128))).2
  obtain ⟨es, hes, hmap⟩ := AtDepth.of_unplaced hread (atDepth_announcedIn (n := 128) .file)
  rw [Nat.zero_add] at hes
  obtain ⟨e, rfl, he⟩ := List.map_eq_singleton_iff.1 hmap
  cases e with
  | property p => cases he
  | nested c => exact ⟨_, c, hes, List.mem_singleton_self _, by decide⟩

end Sqf.Config
