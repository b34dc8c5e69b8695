import Sqf.Proofs.Parse.SideBySide
import Sqf.Proofs.Parse.Sound

/-!
# Reading with other commands

The parser asks its table about the names among the tokens and about nothing else, so two
tables that say the same of these names give the same tree and the same reports
(`parse_congr`). All leaves of the tree are tokens (`leaves_parse`).
-/

namespace Sqf

/-- Two tables say the same of a name. -/
structure Table.Alike (t u : Table) (name : String) : Prop where
  overloads : ∀ arity, t.overloads name arity = u.overloads name arity
  isKnown : t.isKnown name = u.isKnown name

namespace Table.Alike

variable {t u : Table} {name : String}

/-- Two tables that say the same of a name have the same commands of that name. -/
theorem has (h : t.Alike u name) (arity : Arity) : t.has name arity = u.has name arity := by
  rw [has_eq, has_eq, h.overloads]

/-- They resolve it to the same overload. -/
theorem resolve (h : t.Alike u name) (arity : Arity) (supplied : List ValueType) :
    t.resolve name arity supplied = u.resolve name arity supplied := by
  unfold Table.resolve
  rw [h.overloads, h.isKnown]

/-- They bind it equally tight. -/
theorem tier? {token : Token} (h : token.kind = .identifier → t.Alike u token.value) :
    t.tier? token = u.tier? token := by
  unfold Table.tier?
  split
  · next hk => rw [(h hk).has]
  · rfl

/-- They agree on whether an operand comes next. -/
theorem startsOperand {tokens : List Token}
    (h : ∀ x ∈ tokens, x.kind = .identifier → t.Alike u x.value) :
    t.startsOperand tokens = u.startsOperand tokens := by
  induction tokens with
  | nil => rfl
  | cons x xs ih =>
    obtain ⟨hx, hxs⟩ := List.forall_mem_cons.1 h
    rw [Table.startsOperand, Table.startsOperand, ih hxs]
    split
    all_goals first
      | rfl
      | next hk => rw [(hx hk).has, (hx hk).has]

end Table.Alike

namespace Parse

/-! ## Two tables -/

/-- Both runs are in one state, and the tables say the same of all names to come. -/
def SameNames (table table' : Table) (s s' : State) : Prop :=
  s = s' ∧ ∀ t ∈ s.rest, t.kind = .identifier → table.Alike table' t.value

namespace SameNames

variable {table table' : Table} {s s' : State}

/-- Tokens that are dropped are asked about no more. -/
theorem drop (h : SameNames table table' s s') (n : Nat) :
    SameNames table table' (s.drop n) (s'.drop n) :=
  ⟨h.1 ▸ rfl, fun t ht => h.2 t (List.mem_of_mem_drop ht)⟩

/-- Nor is one that is read. -/
theorem advance (h : SameNames table table' s s') :
    SameNames table table' (Parse.advance s).next (Parse.advance s').next :=
  ⟨h.1 ▸ rfl, fun t ht => h.2 t ((Parse.advance s).suffix.subset ht)⟩

theorem diagnostic_default (d : Diagnostic) : ({} : Recast).diagnostic d = d := by
  cases d with
  | mk cause span => cases cause <;> rfl

/-- All of the reading keeps the two runs together. -/
theorem simulation (table table' : Table) :
    Simulation table table' {} (fun _ => SameNames table table') (fun _ => True) where
  -- The states are equal; only what the tables say of the names has to be carried along.
  loops_succ _ := trivial
  span _ := rfl
  kind h := by rw [h.1]
  place h := by rw [h.1]
  text h _ := by rw [h.1]
  isLocal h _ := by rw [h.1]
  numeral h _ := by rw [h.1]
  tier := by
    rintro _ s _ ⟨rfl, h⟩ hne
    obtain ⟨ts, hts⟩ := State.exists_cons hne
    exact Table.Alike.tier? (h s.token (by rw [hts]; exact List.mem_cons_self))
  startsOperand := by
    rintro _ s _ ⟨rfl, h⟩
    exact Table.Alike.startsOperand h
  assigns h _ := by rw [h.1]
  assignsPrivately h _ := by rw [h.1]
  lastEnd h := by rw [h.1]
  shorter h ht := by rw [h.1, ht.1]
  advance h _ _ _ _ := h.advance
  enter h _ := h.advance
  leave h _ := h.advance
  weaken := id
  report d h := by
    rw [diagnostic_default]
    exact ⟨h.1 ▸ rfl, h.2⟩
  nextId h := by rw [h.1]
  freshId h := ⟨h.1 ▸ rfl, h.2⟩
  stall h := ⟨h.1 ▸ rfl, h.2⟩
  dropNested h := by
    rw [← h.1]
    exact SameNames.drop ⟨rfl, h.2⟩ _
  dropUntil stops h := by
    rw [← h.1]
    exact SameNames.drop ⟨rfl, h.2⟩ _
  dropStatement _ h ht _ := by
    rw [← h.1, ← ht.1]
    exact SameNames.drop ⟨rfl, ht.2⟩ _
  dropSeparators _ h := by
    rw [← h.1]
    exact SameNames.drop ⟨rfl, h.2⟩ _

end SameNames

/-- A parser starts with the tokens of its script. -/
theorem rest_initial_subset (tokens : List Token) : (State.initial tokens).rest ⊆ tokens := by
  unfold State.initial
  split
  · exact List.nil_subset _
  · split
    · exact tokens.dropLast_subset
    · exact List.Subset.refl _

end Parse

/-- Tables that say the same of all names among the tokens read them as the same tree, with the
same reports. -/
theorem parse_congr {table table' : Table} {tokens : List Token}
    (h : ∀ t ∈ tokens, t.kind = .identifier → table.Alike table' t.value) :
    parse table tokens = parse table' tokens := by
  have sim := Parse.SameNames.simulation table table'
  have hinitial : Parse.SameNames table table' (.initial tokens) (.initial tokens) :=
    ⟨rfl, fun t ht => h t (Parse.rest_initial_subset tokens ht)⟩
  obtain ⟨hvalue, hnext, -⟩ := sim.agree_statements (sim.level Parse.maxNesting) (k := 0) trivial
    hinitial .file fun _ {_ _} h _ => h.advance
  rw [Recast.stmts_default] at hvalue
  unfold parse
  simp only [hvalue, hnext]

namespace Parse

/-! ## Leaves and tokens -/

/-- The tokens to come are some of these, and so are the leaves. -/
def Invariant.origin (tokens : List Token) : Invariant where
  state s := s.rest ⊆ tokens
  span _ := True
  leaf l := ∃ t ∈ tokens, l.IsOf t
  reported _ := True
  token _ := True.intro
  leafOf := by
    intro s l hs hne hl
    obtain ⟨ts, hts⟩ := State.exists_cons hne
    exact ⟨s.token, hs (by rw [hts]; exact List.mem_cons_self), hl⟩
  drop n hs := fun _ ht => hs (List.mem_of_mem_drop ht)
  finish _ hs := hs
  spanReported _ := True.intro
  plain _ _ := True.intro
  number _ _ _ := True.intro
  report hs _ := hs
  freshId hs := hs
  stall hs := hs
  pointStart _ := True.intro
  pointStop _ := True.intro
  join _ _ := True.intro
  spanFrom _ _ := True.intro
  passed _ _ _ _ := True.intro

end Parse

/-- The leaves of a tree are some of the tokens it was read from. -/
theorem leaves_parse (table : Table) (tokens : List Token) :
    ∀ l ∈ (Node.program (parse table tokens).program).leaves, ∃ t ∈ tokens, l.IsOf t := by
  obtain ⟨-, hstatements⟩ := Parse.Level.statements_sound
    (Parse.level_sound (.origin tokens) table Parse.maxNesting) .file (.initial tokens)
    (Parse.rest_initial_subset tokens)
  rw [Node.leaves_eq]
  intro l hl
  rcases List.mem_append.1 hl with hl | hl
  · cases hl
  · obtain ⟨m, hm, hmem⟩ := List.mem_flatMap.1 hl
    obtain ⟨a, ha, rfl⟩ := List.mem_map.1 hm
    exact (hstatements a ha).marked.leaves l hmem

end Sqf
