import Sqf.Config.Parse
import Sqf.Proofs.Parse.PassesControl

/-!
# Looking for a keyword stays in the statement

When the condition of a construct cannot be read, tokens are passed over up to the keyword behind
it (`skipUntil`). On the way brackets are counted with one counter for all sorts. It never exceeds
the number of open braces and of other open brackets together, so where no parenthesis or bracket
is open, a semicolon or a closing brace is passed only inside of braces that were opened on the
way (`skipUntil_boundary`).

A parenthesis that is left open counts as well, though. Behind it the end of the statement is not
noticed (`skipUntil_crosses`).
-/

namespace Sqf.Parse

open Config (openBraces)

/-! ## Counters -/

/-- The counter of `untilLength` behind a token. -/
def depthBehind (depth : Nat) (t : Token) : Nat :=
  if t.kind.opensGroup then depth + 1
  else if t.kind.closesGroup then depth - 1
  else depth

/-- The number of open braces behind a token. -/
def bracesBehind (n : Nat) (t : Token) : Nat :=
  match t.kind with
  | .openCurly => n + 1
  | .closeCurly => n - 1
  | _ => n

/-- The number of open parentheses and brackets behind a token. -/
def groupsBehind (n : Nat) (t : Token) : Nat :=
  match t.kind with
  | .openParen | .openBracket => n + 1
  | .closeParen | .closeBracket => n - 1
  | _ => n

/-- The common counter does not exceed the other two together: an opener counts for one of them,
and a closer that takes one of them down takes the common one down if it is not at zero. -/
theorem depthBehind_le {depth curly groups : Nat} (h : depth ≤ curly + groups) (t : Token) :
    depthBehind depth t ≤ bracesBehind curly t + groupsBehind groups t := by
  unfold depthBehind bracesBehind groupsBehind
  cases t.kind <;> simp only [Kind.opensGroup, Kind.closesGroup] <;> simp <;> omega

/-! ## Tokens that are passed over -/

section Passed

variable {stops : List Kind} {depth curly groups : Nat} {t : Token} {ts before after : List Token}

/-- The end of a statement is passed over only inside of brackets. -/
theorem untilLength_cons (h : untilLength stops depth (t :: ts) ≠ 0) :
    (t.kind = .semicolon ∨ t.kind = .closeCurly → depth ≠ 0) ∧
      untilLength stops depth (t :: ts) = untilLength stops (depthBehind depth t) ts + 1 := by
  rw [untilLength] at h ⊢
  split at h
  · exact absurd rfl h
  · next hend =>
    split at h
    · exact absurd rfl h
    · next hstop =>
      rw [if_neg hend, if_neg hstop]
      constructor
      · rintro (hk | hk) rfl
        · simp [hk, Kind.isSeparator] at hstop
        · simp [hk] at hstop
      · unfold depthBehind
        split
        · rfl
        · split <;> rfl

/-- The counters go along with the tokens, so at the end of a statement one of them is not at
zero. -/
theorem open_of_passed (hle : depth ≤ curly + groups)
    (h : ts.take (untilLength stops depth ts) = before ++ t :: after)
    (ht : t.kind = .semicolon ∨ t.kind = .closeCurly) :
    0 < before.foldl bracesBehind curly + before.foldl groupsBehind groups := by
  induction ts generalizing depth curly groups before with
  | nil => simp at h
  | cons u us ih =>
    by_cases hzero : untilLength stops depth (u :: us) = 0
    · simp [hzero] at h
    · obtain ⟨hdeep, hlength⟩ := untilLength_cons hzero
      rw [hlength, List.take_succ_cons] at h
      cases before with
      | nil =>
        obtain ⟨rfl, -⟩ := List.cons.inj h
        have hpos := hdeep ht
        show 0 < curly + groups
        omega
      | cons v vs =>
        rw [List.cons_append] at h
        obtain ⟨rfl, hus⟩ := List.cons.inj h
        rw [List.foldl_cons, List.foldl_cons]
        exact ih (depthBehind_le hle u) hus

end Passed

theorem readSince_skipUntil (stops : List Kind) (s : State) :
    (skipUntil stops s).next.readSince s = s.rest.take (untilLength stops 0 s.rest) := by
  show s.rest.take (s.rest.length - (s.rest.drop (untilLength stops 0 s.rest)).length) = _
  rw [List.length_drop]
  by_cases hle : untilLength stops 0 s.rest ≤ s.rest.length
  · rw [Nat.sub_sub_self hle]
  · rw [List.take_of_length_le (by omega), List.take_of_length_le (by omega)]

/-- Passing over tokens stops at one of the kinds or does not leave the statement, as long as the
parentheses and brackets that it passes are closed: a semicolon or a closing brace is passed only
inside of braces. -/
theorem skipUntil_boundary (stops : List Kind) (s : State) :
    let next := (skipUntil stops s).next
    (stops.contains next.kind = true ∨ next.kind.isSeparator = true ∨ next.kind = .closeCurly ∨
      next.kind = .endOfInput) ∧
    ∀ before t after, next.readSince s = before ++ t :: after → openGroups before = 0 →
      t.kind = .semicolon ∨ t.kind = .closeCurly → 0 < openBraces before := by
  intro next
  constructor
  · exact kind_skipUntil stops s
  · intro before t after hpassed hgroups ht
    rw [readSince_skipUntil] at hpassed
    have hopen := open_of_passed (Nat.zero_le (0 + 0)) hpassed ht
    have hgroups' : before.foldl groupsBehind 0 = 0 := hgroups
    rw [hgroups'] at hopen
    exact hopen

/-- Behind the first token of a script, where the condition of a construct is read. -/
def behindKeyword (source : String) : State := (State.initial (scan source).tokens).drop 1

/-- A block and a pair of parentheses behind a condition that cannot be read. -/
def balancedSkip : String := "while ) \x7ba; b\x7d (c); hint \"a\""

theorem skipUntil_boundary_balanced :
    let s := behindKeyword balancedSkip
    let before := ((skipUntil [.doWord] s).next.readSince s).take 3
    let after := ((skipUntil [.doWord] s).next.readSince s).drop 4
    let t : Token := ⟨.semicolon, ";", ⟨10, 11⟩⟩
    (skipUntil [.doWord] s).next.readSince s = before ++ t :: after ∧ openGroups before = 0 ∧
      (t.kind = .semicolon ∨ t.kind = .closeCurly) ∧ 0 < openBraces before := by
  intro s before after t
  have hpassed : (skipUntil [.doWord] s).next.readSince s = before ++ t :: after := by
    decide +kernel
  have hgroups : openGroups before = 0 := by decide +kernel
  have ht : t.kind = .semicolon ∨ t.kind = .closeCurly := .inl rfl
  exact ⟨hpassed, hgroups, ht, (skipUntil_boundary [.doWord] s).2 before t after hpassed hgroups ht⟩

/-- A parenthesis that is left open behind a condition that cannot be read. -/
def unclosedSkip : String := "while ) (; hint \"a\""

/-- With a parenthesis left open the semicolon behind it is passed though it is in no braces, and
the statement behind the semicolon is not read. -/
theorem skipUntil_crosses :
    (parseSource .empty unclosedSkip).program.statements.length = 1 ∧
      ¬ ∀ (stops : List Kind) (s : State) (before : List Token) (t : Token) (after : List Token),
        (skipUntil stops s).next.readSince s = before ++ t :: after →
        t.kind = .semicolon ∨ t.kind = .closeCurly → 0 < openBraces before := by
  constructor
  · decide +kernel
  · intro h
    have hpassed : (skipUntil [.doWord] (behindKeyword unclosedSkip)).next.readSince
        (behindKeyword unclosedSkip) =
        [⟨.closeParen, ")", ⟨6, 7⟩⟩, ⟨.openParen, "(", ⟨8, 9⟩⟩] ++ ⟨.semicolon, ";", ⟨9, 10⟩⟩ ::
          [⟨.identifier, "hint", ⟨11, 15⟩⟩, ⟨.string, "a", ⟨16, 19⟩⟩] := by
      decide +kernel
    exact absurd (h _ _ _ _ _ hpassed (.inl rfl)) (by decide)

end Sqf.Parse
