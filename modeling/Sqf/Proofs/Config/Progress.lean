import Sqf.Proofs.Config.SpanNesting

/-!
# Reading a config file comes to an end

Every loop of the parser reads a token in each of its turns, or ends: the loop over entries,
also behind an entry that cannot be read, the one over the items of an array, raw text, and what
is passed over. So no loop is cut off (`Loop`), and a file is read to the end of its input
(`rest_allEntries`).
-/

namespace Sqf.Config

open Parse (State many Shortens Loop Items)

section Loops

variable {source : List Char} {s t : State}

/-- Where each turn but the last reads a token, the loop runs to its end. -/
theorem loop_of_progress {turn : Parse (Option α)}
    (h : ∀ s, (turn s).value = none ∨ Shortens turn s) (s : State) :
    Loop turn s (many turn s).value (many turn s).next := by
  -- Induction on the tokens that are left, as in the definition of the loop.
  generalize hlength : s.rest.length = length
  induction length using Nat.strong_induction_on generalizing s with
  | _ length ih =>
    subst hlength
    cases hvalue : (turn s).value with
    | none =>
      obtain ⟨hnone, hnext⟩ := Parse.many_of_none hvalue
      rw [hnone, hnext]
      exact .stop hvalue
    | some a =>
      have hlt : Shortens turn s := (h s).resolve_left (by rw [hvalue]; exact nofun)
      obtain ⟨hsome, hnext⟩ := Parse.many_of_some hvalue hlt
      rw [hsome, hnext]
      exact .go hvalue (ih _ hlt _ rfl)

/-- A turn of the loop over entries reads something or is the last one. -/
theorem turn_progress (body : Attempt (List Entry)) (value : Attempt Value) (s : State) :
    (turn body value s).value = none ∨ Shortens (turn body value) s := by
  have hturned := turned_turn body value s
  cases hfound : (turn body value s).value with
  | none => exact .inl rfl
  | some found =>
    rw [hfound] at hturned
    exact .inr hturned.shortens

/-- At the end of the file there are no more entries. -/
theorem strayTurn_of_end (source : List Char) (h : s.kind = .endOfInput) :
    (strayTurn source s).value = none ∧ (strayTurn source s).next = s := by
  have hrun : strayTurn source s = (pure none : Parse (Option (List Entry))) s := by
    show (if s.kind = .endOfInput then _ else _ : Parse (Option (List Entry))) s = _
    rw [if_pos h]
  rw [hrun]
  exact ⟨rfl, rfl⟩

/-- The state behind a stray brace, which has been reported. -/
def pastStray (s : State) : State :=
  (Parse.advance (Parse.reportUnexpected "`class` or a property" s).next).next

/-- A stray brace is passed, and the entries behind it are read. -/
theorem strayTurn_of_brace (source : List Char) (h : s.kind ≠ .endOfInput) :
    (strayTurn source s).value = some (topEntries source (pastStray s)).value ∧
      (strayTurn source s).next = (topEntries source (pastStray s)).next := by
  have hrun : strayTurn source s = (do
      Parse.reportUnexpected "`class` or a property"
      let _ ← Parse.advance
      let entries ← topEntries source
      return some entries : Parse (Option (List Entry))) s := by
    show (if s.kind = .endOfInput then _ else _ : Parse (Option (List Entry))) s = _
    rw [if_neg h]
  rw [hrun]
  exact ⟨rfl, rfl⟩

/-- Passing it reads a token. -/
theorem length_pastStray_lt (h : s.kind ≠ .endOfInput) :
    (pastStray s).rest.length < s.rest.length :=
  Parse.advance_shortens (s := (Parse.reportUnexpected "`class` or a property" s).next) h

/-- So the loop over stray braces reads something in each turn. -/
theorem strayTurn_progress (source : List Char) (s : State) :
    (strayTurn source s).value = none ∨ Shortens (strayTurn source) s := by
  by_cases h : s.kind = .endOfInput
  · exact .inl (strayTurn_of_end source h).1
  · right
    rw [Shortens, (strayTurn_of_brace source h).2]
    exact Nat.lt_of_le_of_lt (Parse.length_next_le (topEntries source) _) (length_pastStray_lt h)

/-- Without a stray brace the entries up to the end are all. -/
theorem allEntries_of_end (h : (topEntries source s).next.kind = .endOfInput) :
    (allEntries source s).value = (topEntries source s).value ∧
      (allEntries source s).next = (topEntries source s).next := by
  obtain ⟨hvalue, hnext⟩ := strayTurn_of_end source h
  obtain ⟨hnone, hstays⟩ := Parse.many_of_none hvalue
  have hall : (allEntries source s).value = (topEntries source s).value ++
      (many (strayTurn source) (topEntries source s).next).value.flatten := rfl
  rw [hall, hnone, List.flatten_nil, List.append_nil]
  exact ⟨rfl, hstays.trans hnext⟩

/-- Behind a stray brace a file is read as from its start. -/
theorem allEntries_of_stray (h : (topEntries source s).next.kind = .closeCurly) :
    (allEntries source s).value = (topEntries source s).value ++
        (allEntries source (pastStray (topEntries source s).next)).value ∧
      (allEntries source s).next =
        (allEntries source (pastStray (topEntries source s).next)).next := by
  have hend : (topEntries source s).next.kind ≠ .endOfInput := by
    rw [h]
    decide
  obtain ⟨hvalue, hnext⟩ := strayTurn_of_brace source hend
  have hlt : (strayTurn source (topEntries source s).next).next.rest.length <
      (topEntries source s).next.rest.length :=
    (strayTurn_progress source _).resolve_left (by rw [hvalue]; exact nofun)
  obtain ⟨hsome, hothers⟩ := Parse.many_of_some hvalue hlt
  have hall (s : State) : (allEntries source s).value = (topEntries source s).value ++
      (many (strayTurn source) (topEntries source s).next).value.flatten := rfl
  rw [hall, hall, hsome, hnext, List.flatten_cons]
  refine ⟨rfl, ?_⟩
  show (many (strayTurn source) (topEntries source s).next).next = _
  rw [hothers, hnext]
  rfl

theorem reaches_pastStray (s : State) : s.Reaches (pastStray s) :=
  (Parse.reaches_report (s.unexpected "`class` or a property") s).advance

theorem reaches_allEntries (source : List Char) (s : State) :
    s.Reaches (allEntries source s).next :=
  (allEntries_upholds (I := .behind s) source .refl).1

/-- The loop behind stray braces stops at the end of input only. -/
theorem kind_of_strayLoop {found : List (List Entry)} (h : Loop (strayTurn source) s found t) :
    t.kind = .endOfInput := by
  induction h with
  | @stop s hnone =>
    by_cases hend : s.kind = .endOfInput
    · rwa [(strayTurn_of_end source hend).2]
    · rw [(strayTurn_of_brace source hend).1] at hnone
      cases hnone
  | go _ _ ih => exact ih

/-- Nothing is left of a file. -/
theorem rest_allEntries (source : String) :
    (allEntries source.toList (.initial (scan source).tokens)).next.rest = [] := by
  have hwithin := (Sited.initial source).within.next (allEntries source.toList)
  exact hwithin.rest_eq_nil
    (kind_of_strayLoop (loop_of_progress (strayTurn_progress source.toList) _))

end Loops

/-! ## Tokens that are passed over -/

/-- Raw text is read up to the first token that ends it. -/
theorem rest_word (source : List Char) (s : State) :
    (word source s).next.rest = s.rest.dropWhile fun t => !endsWord t.kind := by
  show s.rest.drop (s.rest.takeWhile fun t => !endsWord t.kind).length = _
  conv_lhs =>
    arg 2
    rw [← List.takeWhile_append_dropWhile (p := fun t : Token => !endsWord t.kind) (l := s.rest)]
  exact List.drop_left

/-- The end of an entry is here, behind the next token, or further on. -/
theorem entryLength_step (depth : Nat) (t : Token) (ts : List Token) :
    entryLength depth (t :: ts) ≤ 1 ∨
      ∃ depth', entryLength depth (t :: ts) = entryLength depth' ts + 1 := by
  rw [entryLength]
  split
  · exact .inl (Nat.zero_le _)
  · split
    · exact .inl (Nat.le_refl _)
    · exact .inr ⟨_, rfl⟩
  · split
    · exact .inl (Nat.zero_le _)
    · exact .inr ⟨_, rfl⟩
  · exact .inr ⟨_, rfl⟩
  · exact .inr ⟨_, rfl⟩

end Sqf.Config
