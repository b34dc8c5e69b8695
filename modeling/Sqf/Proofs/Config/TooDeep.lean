import Mathlib.Data.List.Nodup
import Sqf.Proofs.Config.Course
import Sqf.Proofs.Config.NestingLimit

/-!
# Braces that nest too deeply

If no level is left for the brace of a class or of an array, then the entry with this brace is
left out, and the brace is reported once (`nesting_limited`). Reports of this sort come from such
braces only: the other parsers report nothing of the sort, and where one fails because of a brace
it stands before it (`HaltsAt`). They come in the order of their places, so none of them comes
twice (`Adds`).
-/

namespace Sqf.Config

open Parse (State kind state advance many commaList Items)
open Attempt (Runs Fails)

/-! ## Parsers that report no brace -/

/-- The diagnostic is of a brace that nests too deeply. -/
def isTooDeep (d : Diagnostic) : Bool :=
  match d.cause with
  | .nestingTooDeep _ => true
  | _ => false

/-- What has been reported of braces that nest too deeply. -/
def tooDeeps (s : State) : List Diagnostic := s.diagnostics.toList.filter isTooDeep

section Reports

variable {s : State} {d : Diagnostic}

/-- Reading a token reports nothing. -/
theorem tooDeeps_advance (s : State) : tooDeeps (Parse.advance s).next = tooDeeps s := by
  rw [Parse.next_advance_eq]
  rfl

/-- A report of another sort does not count. -/
theorem tooDeeps_report (h : isTooDeep d = false) (s : State) :
    tooDeeps (Parse.report d s).next = tooDeeps s := by
  simp [tooDeeps, h]

/-- One of a brace that is too deep does. -/
theorem tooDeeps_report_tooDeepAt (b s : State) :
    tooDeeps (Parse.report (tooDeepAt b) s).next = tooDeeps s ++ [tooDeepAt b] := by
  have h : isTooDeep (tooDeepAt b) = true := rfl
  simp [tooDeeps, h]

/-- An unexpected token is reported as something else. -/
theorem isTooDeep_unexpected (s : State) (expectation : String) :
    isTooDeep (s.unexpected expectation) = false := by
  unfold State.unexpected
  split <;> rfl

/-- So is a missing semicolon. -/
theorem tooDeeps_terminator (stop : Nat) (s : State) :
    tooDeeps (terminator stop s).next = tooDeeps s := by
  show tooDeeps ((if s.kind = .semicolon then (do let _ ← advance)
    else Parse.report ⟨.missingSeparator s.token.value, .point stop⟩ : Parse Unit) s).next = _
  split
  · exact tooDeeps_advance s
  · exact tooDeeps_report rfl s

/-- So is a missing brace. -/
theorem tooDeeps_closing (s : State) : tooDeeps (closing s).next = tooDeeps s := by
  show tooDeeps ((if s.kind = .closeCurly then do
      let brace ← advance
      terminator brace.span.stop
      return brace.span
    else do
      Parse.reportUnexpected "`\x7d`"
      return s.token.span : Parse Span) s).next = _
  split
  · exact (tooDeeps_terminator _ _).trans (tooDeeps_advance s)
  · exact tooDeeps_report (isTooDeep_unexpected s _) s

/-- Skipping reports nothing. -/
theorem tooDeeps_synchronize (start s : State) :
    tooDeeps (synchronize start s).next = tooDeeps s := by
  rw [next_synchronize rfl]
  split
  · exact tooDeeps_advance _
  · rfl

end Reports

/-- The parser reports no brace that nests too deeply. If it fails because of one, then it stands
before it, and there it is as `Deep` says. -/
structure HaltsAt (x : Attempt α) (Deep : State → Prop) (s : State) : Prop where
  same : tooDeeps (x.run s).next = tooDeeps s
  deep : ∀ d, (x.run s).value = .error d → isTooDeep d = true →
    d = tooDeepAt (x.run s).next ∧ Deep (x.run s).next

namespace HaltsAt

variable {x : Attempt α} {f : α → Attempt β} {Deep Deep' : State → Prop} {s : State}

/-- It may stop before more braces. -/
theorem mono (h : HaltsAt x Deep s) (hdeep : ∀ b, Deep b → Deep' b) : HaltsAt x Deep' s :=
  ⟨h.same, fun d hd htoo => (h.deep d hd htoo).imp id (hdeep _)⟩

/-- Where the first part goes on, the second one decides. -/
theorem bind (h : HaltsAt x Deep s) (hf : ∀ a t, Runs x s a t → HaltsAt (f a) Deep t) :
    HaltsAt (x >>= f) Deep s := by
  cases hvalue : (x.run s).value with
  | error d =>
    obtain ⟨herror, hnext⟩ := Attempt.bind_error (f := f) hvalue
    refine ⟨by rw [hnext, h.same], fun e he => ?_⟩
    rw [herror] at he
    cases he
    rw [hnext]
    exact h.deep d hvalue
  | ok a =>
    obtain ⟨hok, hnext⟩ := Attempt.bind_ok (f := f) hvalue
    have hrest := hf a _ ⟨hvalue, rfl⟩
    refine ⟨by rw [hnext, hrest.same, h.same], fun e he => ?_⟩
    rw [hok] at he
    rw [hnext]
    exact hrest.deep e he

/-- A parser that reads nothing does not fail. -/
theorem pure (a : α) : HaltsAt (Pure.pure a) Deep s := ⟨rfl, nofun⟩

/-- A failure of another sort does not count. -/
theorem throw {d : Diagnostic} (h : isTooDeep d = false) :
    HaltsAt (MonadExcept.throw d : Attempt α) Deep s := by
  refine ⟨rfl, fun e he htoo => ?_⟩
  cases he
  rw [h] at htoo
  cases htoo

/-- A parser that cannot fail only has to report nothing of the sort. -/
theorem lift {p : Parse α} (h : tooDeeps (p s).next = tooDeeps s) :
    HaltsAt (liftM p : Attempt α) Deep s := ⟨h, nofun⟩

/-- It may stand in front of one that can. -/
theorem lift_bind {p : Parse α} {f : α → Attempt β} (h : tooDeeps (p s).next = tooDeeps s)
    (hf : HaltsAt (f (p s).value) Deep (p s).next) : HaltsAt (liftM p >>= f) Deep s :=
  (lift h).bind fun _ _ ⟨ha, ht⟩ => Except.ok.inj ha ▸ ht ▸ hf

theorem kind_bind {f : Kind → Attempt β} (h : HaltsAt (f s.kind) Deep s) :
    HaltsAt (liftM Parse.kind >>= f) Deep s := ⟨h.same, h.deep⟩

theorem state_bind {f : State → Attempt β} (h : HaltsAt (f s) Deep s) :
    HaltsAt (liftM Parse.state >>= f) Deep s := ⟨h.same, h.deep⟩

/-- An unexpected token is a failure of another sort. -/
theorem failUnexpected (expectation : String) :
    HaltsAt (Parse.failUnexpected expectation : Attempt α) Deep s :=
  HaltsAt.state_bind (HaltsAt.throw (isTooDeep_unexpected s expectation))

theorem advance : HaltsAt (liftM Parse.advance : Attempt Token) Deep s := lift (tooDeeps_advance s)

theorem advance_bind {f : Token → Attempt β}
    (h : ∀ t, HaltsAt (f t) Deep (Parse.advance s).next) :
    HaltsAt (liftM Parse.advance >>= f) Deep s := lift_bind (tooDeeps_advance s) (h _)

/-- The failure itself is one at the brace that is too deep. -/
theorem tooDeep (h : Deep s) : HaltsAt (Config.tooDeep : Attempt α) Deep s := by
  refine ⟨rfl, fun d hd _ => ?_⟩
  cases hd
  exact ⟨rfl, h⟩

end HaltsAt

section Values

variable {source : List Char} {Deep : State → Prop} {s : State}

/-- A token that is missing is a failure of another sort. -/
theorem haltsAt_expect (k : Kind) (expectation : String) :
    HaltsAt (Parse.expect k expectation) Deep s := by
  refine HaltsAt.kind_bind ?_
  split
  · exact HaltsAt.advance
  · exact HaltsAt.failUnexpected _

/-- So is a malformed number. -/
theorem haltsAt_number (negative : Bool) : HaltsAt (number negative) Deep s := by
  refine (haltsAt_expect _ _).bind fun t u _ => ?_
  split
  · exact HaltsAt.pure _
  · exact HaltsAt.throw rfl

/-- So is a missing name. -/
theorem haltsAt_name (expectation : String) : HaltsAt (name expectation) Deep s := by
  refine HaltsAt.state_bind ?_
  split
  · exact HaltsAt.advance
  · exact HaltsAt.failUnexpected _

/-- The brackets behind the name of an array open no level. -/
theorem haltsAt_brackets : HaltsAt brackets Deep s := by
  refine HaltsAt.kind_bind ?_
  split
  · refine HaltsAt.advance_bind fun _ => ?_
    exact (haltsAt_expect _ _).bind fun _ _ _ => HaltsAt.pure _
  · exact HaltsAt.pure _

/-- Nor does the sign between a name and its value. -/
theorem haltsAt_assignment (isArray : Bool) : HaltsAt (assignment isArray) Deep s := by
  refine HaltsAt.kind_bind ?_
  split
  · exact HaltsAt.advance_bind fun _ => HaltsAt.pure _
  · exact HaltsAt.failUnexpected _

/-- Nor does the parent of a class. -/
theorem haltsAt_parent : HaltsAt parent Deep s := by
  refine HaltsAt.kind_bind ?_
  split
  · exact HaltsAt.advance_bind fun _ => (haltsAt_name _).bind fun _ _ _ => HaltsAt.pure _
  · exact HaltsAt.pure _

/-- A value fails at the brace of an array if the array does. -/
theorem haltsAt_valueWith (source : List Char) {array : Attempt Value}
    (harray : s.kind = .openCurly → HaltsAt array Deep s) :
    HaltsAt (valueWith source array) Deep s := by
  refine HaltsAt.kind_bind ?_
  split
  · exact HaltsAt.advance_bind fun _ => HaltsAt.pure _
  · exact haltsAt_number false
  · exact HaltsAt.advance_bind fun _ => haltsAt_number true
  · next hkind => exact harray hkind
  · split
    · exact HaltsAt.failUnexpected _
    · exact HaltsAt.lift rfl

/-- The items of an array fail at a brace if one of them does. -/
theorem haltsAt_items {item : Attempt Value} {Deep : State → State → Prop}
    (hitem : ∀ t, HaltsAt item (Deep t) t) (expectation : String) :
    HaltsAt (commaList .closeCurly expectation item)
      (fun b => ∃ t, ItemAt item s t ∧ Deep t b) s := by
  suffices hitems : ∀ outcome u, Items .closeCurly expectation item s outcome u →
      tooDeeps u = tooDeeps s ∧ ∀ d, outcome = .error d → isTooDeep d = true →
        d = tooDeepAt u ∧ ∃ t, ItemAt item s t ∧ Deep t u by
    obtain ⟨hsame, hdeep⟩ := hitems _ _ (Parse.commaList_items (by decide) expectation item s)
    exact ⟨hsame, hdeep⟩
  intro outcome u h
  -- Induction on the items that are read. The one that fails is reached by way of those before it.
  induction h with
  | closed _ => exact ⟨rfl, nofun⟩
  | failed hclose hd =>
    refine ⟨(hitem _).same, fun e he htoo => ?_⟩
    cases he
    exact ((hitem _).deep _ hd htoo).imp id fun hdeep => ⟨_, .here hclose, hdeep⟩
  | last _ _ _ => exact ⟨(hitem _).same, nofun⟩
  | unexpected _ _ _ _ =>
    refine ⟨(hitem _).same, fun e he htoo => ?_⟩
    cases he
    rw [isTooDeep_unexpected] at htoo
    cases htoo
  | @more s t a as hclose ha hcomma _ _ ih =>
    refine ⟨(ih.1.trans (tooDeeps_advance _)).trans (hitem s).same, fun e he htoo => ?_⟩
    cases as with
    | ok as => cases he
    | error d =>
      cases he
      obtain ⟨hd, u, hu, hdeep⟩ := ih.2 _ rfl htoo
      exact ⟨hd, u, .next hclose ⟨ha, rfl⟩ hcomma hu, hdeep⟩

/-- An array stops at its own brace if no level is left, or at one in its items. -/
theorem haltsAt_array (n : Nat) :
    ∀ s : State, s.kind = .openCurly →
      HaltsAt (array source n) (ArrayBrace source n s 0 ·) s := by
  induction n with
  | zero => exact fun s hkind => HaltsAt.tooDeep (.here hkind)
  | succ n ih =>
    intro s hkind
    refine HaltsAt.advance_bind fun _ => HaltsAt.bind ?_ fun _ _ _ =>
      HaltsAt.advance_bind fun _ => HaltsAt.pure _
    have hitems := haltsAt_items (s := (Parse.advance s).next)
      (fun t => haltsAt_valueWith source (ih t)) "`,` or `\x7d`"
    exact hitems.mono fun b ⟨t, ht, hbrace⟩ => .item hkind ht hbrace

/-- A value stops where an array does. -/
theorem haltsAt_value (n : Nat) (s : State) :
    HaltsAt (valueWith source (array source n)) (ArrayBrace source n s 0 ·) s :=
  haltsAt_valueWith source (haltsAt_array n s)

end Values

section Entries

variable {source : List Char} {n : Nat} {s : State}

/-- A property stops where its value does. -/
theorem haltsAt_property (hname : s.token.isName = true)
    (hclass : sameName s.token.value "class" = false) :
    HaltsAt (property (valueWith source (array source n))) (Brace source n s 0 ·) s := by
  refine HaltsAt.advance_bind fun start => ?_
  refine haltsAt_brackets.bind fun isArray t hbrackets => ?_
  refine (haltsAt_assignment isArray).bind fun appends v hsign => HaltsAt.kind_bind ?_
  split
  · exact HaltsAt.failUnexpected _
  · have hvalue : HasValue s v := ⟨hname, hclass, isArray, appends, t, hbrackets, hsign⟩
    refine ((haltsAt_value n v).mono fun b hb => .ofArray hvalue hb).bind fun _ w _ => ?_
    refine HaltsAt.lift_bind rfl ?_
    exact HaltsAt.lift_bind (tooDeeps_terminator _ _) (HaltsAt.pure _)

/-- A class whose brace has no level left fails at its brace. -/
theorem haltsAt_classWith (hname : s.token.isName = true)
    (hclass : sameName s.token.value "class" = true) (hlast : ∀ b, OpensClass s b → n = 0) :
    HaltsAt (classWith (body source n)) (Brace source n s 0 ·) s := by
  refine HaltsAt.advance_bind fun start => ?_
  refine (haltsAt_name _).bind fun text t htext => ?_
  refine haltsAt_parent.bind fun base b hbase => HaltsAt.kind_bind ?_
  split
  · exact HaltsAt.advance_bind fun _ => HaltsAt.pure _
  · next hkind =>
    have hopens : OpensClass s b := ⟨hname, hclass, ⟨text, base, t, htext, hbase⟩, hkind⟩
    cases hlast b hopens
    exact (HaltsAt.tooDeep (.ofClass hopens)).bind fun _ _ ⟨hnone, _⟩ => by cases hnone
  · exact HaltsAt.failUnexpected _

/-- So does an entry that opens no class with levels left. -/
theorem haltsAt_entry (hlast : ∀ b, OpensClass s b → n = 0) :
    HaltsAt (entry (body source n) (valueWith source (array source n)))
      (Brace source n s 0 ·) s := by
  refine HaltsAt.state_bind ?_
  dsimp only
  split
  · exact HaltsAt.failUnexpected _
  next hname =>
  rw [Bool.not_eq_true, Bool.not_eq_false'] at hname
  split
  · next hclass =>
    exact (haltsAt_classWith hname hclass hlast).bind fun _ _ _ => HaltsAt.pure _
  · next hclass =>
    rw [Bool.not_eq_true] at hclass
    exact (haltsAt_property hname hclass).bind fun _ _ _ => HaltsAt.pure _

end Entries

/-! ## Reports in order -/

/-- What was reported between two states of braces that nest too deeply is of braces between
them, in their order, and these are as `P` says. -/
def Adds (P : State → Prop) (s t : State) : Prop :=
  ∃ bs : List State, tooDeeps t = tooDeeps s ++ bs.map tooDeepAt ∧
    (bs.Pairwise fun b c => b.token.span.start < c.token.span.start) ∧
    ∀ b ∈ bs, s.token.span.start ≤ b.token.span.start ∧
      b.token.span.start < t.token.span.start ∧ P b

namespace Adds

variable {P Q : State → Prop} {s t u : State}

/-- Nothing has been added. -/
theorem of_same (h : tooDeeps t = tooDeeps s) : Adds P s t :=
  ⟨[], by rw [h, List.map_nil, List.append_nil], .nil, nofun⟩

/-- Less may be said of the braces that were added. -/
theorem mono (h : Adds P s t) (hPQ : ∀ b, P b → Q b) : Adds Q s t := by
  obtain ⟨bs, hbs, hordered, hplaced⟩ := h
  exact ⟨bs, hbs, hordered, fun b hb => (hplaced b hb).imp id (And.imp id (hPQ b))⟩

/-- What two parts add is in the order of its places, as the second part starts where the first
one ends. -/
theorem trans (hs : s.Spaced) (hst : s.Reaches t) (htu : t.Reaches u) (h : Adds P s t)
    (h' : Adds P t u) : Adds P s u := by
  obtain ⟨bs, hbs, hordered, hplaced⟩ := h
  obtain ⟨cs, hcs, hordered', hplaced'⟩ := h'
  have hle := hs.le hst
  have hle' := (hs.mono hst).le htu
  refine ⟨bs ++ cs, by rw [hcs, hbs, List.map_append, List.append_assoc],
    List.pairwise_append.2 ⟨hordered, hordered', fun b hb c hc => ?_⟩,
    List.forall_mem_append.2 ⟨fun b hb => ?_, fun c hc => ?_⟩⟩
  · exact Nat.lt_of_lt_of_le (hplaced b hb).2.1 (hplaced' c hc).1
  · obtain ⟨hstart, hstop, hP⟩ := hplaced b hb
    exact ⟨hstart, Nat.lt_of_lt_of_le hstop hle', hP⟩
  · obtain ⟨hstart, hstop, hP⟩ := hplaced' c hc
    exact ⟨Nat.le_trans hle hstart, hstop, hP⟩

end Adds

/-- From `s` on, with `n` levels, the parser comes to an entry with the brace `b`, which nests too
deeply. -/
def TooDeepIn (cs : List Char) (n : Nat) (s b : State) : Prop :=
  ∃ k t, Comes cs n s k t ∧ Brace cs k t 0 b

section Turns

variable {source : String} {n : Nat} {s b : State}

/-- An opening brace is skipped with all that is in it. -/
theorem entryLength_openCurly {t : Token} {ts : List Token} (h : t.kind = .openCurly)
    (depth : Nat) : entryLength depth (t :: ts) = entryLength (depth + 1) ts + 1 := by
  rw [entryLength, h]

/-- An opening brace is passed over with the rest of an entry. -/
theorem synchronize_passes {start : State} (h : s.kind = .openCurly) :
    (synchronize start s).next.rest.length < s.rest.length := by
  obtain ⟨ts, hts⟩ := State.exists_cons (s := s) (by rw [h]; decide)
  rw [next_synchronize rfl]
  have hdrop : (s.drop (entryLength (openBraces (s.readSince start)) s.rest)).rest.length <
      s.rest.length := by
    show (s.rest.drop (entryLength _ s.rest)).length < s.rest.length
    rw [hts, entryLength_openCurly h, List.length_drop, List.length_cons]
    omega
  split
  · exact Nat.lt_of_le_of_lt (Parse.length_next_le Parse.advance _) hdrop
  · exact hdrop

/-- Skipping leads on in the file. -/
theorem reaches_synchronize (start s : State) : s.Reaches (synchronize start s).next :=
  (synchronize_upholds (I := .behind s) start .refl).1

/-- The head of a class reports nothing of the sort. -/
theorem OpensClass.tooDeeps_eq (h : OpensClass s b) : tooDeeps b = tooDeeps s := by
  obtain ⟨text, base, t, ⟨-, rfl⟩, ⟨-, rfl⟩⟩ := h.head
  have hname : HaltsAt (name "a class name") (fun _ => True) (Parse.advance s).next :=
    haltsAt_name _
  have hparent : HaltsAt parent (fun _ => True)
      ((name "a class name").run (Parse.advance s).next).next := haltsAt_parent
  exact hparent.same.trans (hname.same.trans (tooDeeps_advance s))

/-- The brace of an array is an opening brace. -/
theorem ArrayBrace.brace {cs : List Char} {k : Nat} (h : ArrayBrace cs n s k b) :
    b.kind = .openCurly := by
  induction h with
  | here h => exact h
  | item _ _ _ ih => exact ih

/-- So is the brace of a class. -/
theorem Brace.brace {cs : List Char} {k : Nat} (h : Brace cs n s k b) : b.kind = .openCurly := by
  cases h with
  | ofClass h => exact h.brace
  | ofArray _ h => exact h.brace

/-- It stands behind the start of its entry. -/
theorem Brace.reaches {cs : List Char} (h : Brace cs n s 0 b) : s.Reaches b := by
  rw [← h.fails.2]
  exact (entry_upholds (I := .behind s) (body_upholds cs n)
    (valueWith_upholds (array_upholds cs n)) .refl).1

/-- Behind a turn with a brace that nests too deeply nothing of the brace is left. -/
theorem Brace.stop_le_turn (h : Brace source.toList n s 0 b) (hs : Sited source s) :
    b.token.span.stop ≤ (levelTurn source.toList n s).next.token.span.start := by
  rw [h.turn.2]
  have hb := hs.mono (h.reaches.report (tooDeepAt b))
  have hpassed := reaches_synchronize s (Parse.report (tooDeepAt b) b).next
  exact Nat.le_trans (hb.spaced.stop_le_of_lt hpassed (synchronize_passes h.brace))
    (hb.mono hpassed).spaced.read

/-- A turn reports those braces that nest too deeply in its entry. -/
theorem levelTurn_adds (hs : Sited source s)
    (hinside : ∀ m, n = m + 1 → ∀ t, Sited source t →
      Adds (TooDeepIn source.toList m t) t (levelEntries source.toList m t).next) :
    Adds (TooDeepIn source.toList n s) s (levelTurn source.toList n s).next := by
  by_cases hclass : (∃ b, OpensClass s b) ∧ 0 < n
  · -- The class is read, and so are the entries behind its brace.
    obtain ⟨⟨b, hopen⟩, hpos⟩ := hclass
    obtain ⟨m, rfl⟩ : ∃ m, n = m + 1 := ⟨n - 1, by omega⟩
    obtain ⟨c, -, -, -, hnext⟩ := hopen.turn source.toList m
    have hreaches : s.Reaches (Parse.advance b).next :=
      (Parse.reaches_advance s).trans (hopen.reaches.trans (Parse.reaches_advance b))
    have hentries := (hinside m rfl _ (hs.mono hreaches)).mono
      (Q := TooDeepIn source.toList (m + 1) s)
      fun _ ⟨k, t, hcomes, hbrace⟩ => ⟨k, t, .inside hopen hcomes, hbrace⟩
    have hend := reaches_levelEntries source.toList m (Parse.advance b).next
    have hhead : tooDeeps (Parse.advance b).next = tooDeeps s :=
      (tooDeeps_advance b).trans hopen.tooDeeps_eq
    rw [hnext]
    exact ((Adds.of_same hhead).trans hs.spaced hreaches hend hentries).trans hs.spaced
      (hreaches.trans hend) (reaches_closing _) (Adds.of_same (tooDeeps_closing _))
  · -- Nothing in the entry has entries of its own, so what is reported is why it fails, if it does.
    have hlast : ∀ b, OpensClass s b → n = 0 :=
      fun b hb => Nat.eq_zero_of_not_pos fun hpos => hclass ⟨⟨b, hb⟩, hpos⟩
    have hentry : HaltsAt (entry (body source.toList n) (valueWith source.toList
        (array source.toList n))) (Brace source.toList n s 0 ·) s := haltsAt_entry hlast
    -- A turn finds the end, a stray brace or an entry, which is kept or dropped with a report.
    have hturned : Turned _ _ s (levelTurn source.toList n s).value
        (levelTurn source.toList n s).next := turned_turn _ _ s
    generalize hvalue : (levelTurn source.toList n s).value = found at hturned
    generalize hnext : (levelTurn source.toList n s).next = t at hturned ⊢
    cases hturned with
    | last _ => exact Adds.of_same rfl
    | stray _ => exact Adds.of_same (tooDeeps_advance s)
    | read _ _ => exact Adds.of_same hentry.same
    | @dropped d _ _ hd =>
      cases htoo : isTooDeep d with
      | false =>
        exact Adds.of_same ((tooDeeps_synchronize _ _).trans
          ((tooDeeps_report htoo _).trans hentry.same))
      | true =>
        obtain ⟨rfl, hbrace⟩ := hentry.deep d hd htoo
        have hstop := hbrace.stop_le_turn hs
        rw [hnext] at hstop
        have hlt := (hs.mono hbrace.reaches).token_lt (by rw [hbrace.brace]; decide)
        refine ⟨[_], ?_, List.pairwise_singleton _ _, List.forall_mem_singleton.2
          ⟨hs.spaced.le hbrace.reaches, Nat.lt_of_lt_of_le hlt hstop, n, s, .here, hbrace⟩⟩
        rw [tooDeeps_synchronize, tooDeeps_report_tooDeepAt, hentry.same]
        rfl

/-- Entries one after the other report the braces that nest too deeply in them. -/
theorem levelEntries_adds (n : Nat) (hs : Sited source s) :
    Adds (TooDeepIn source.toList n s) s (levelEntries source.toList n s).next := by
  -- The levels that are left decrease into a class, the tokens that are left along its entries.
  induction n using Nat.strong_induction_on generalizing s with
  | _ n ihn =>
    generalize hlength : s.rest.length = length
    induction length using Nat.strong_induction_on generalizing s with
    | _ length ih =>
      subst hlength
      have hturn : Adds (TooDeepIn source.toList n s) s (levelTurn source.toList n s).next :=
        levelTurn_adds hs fun m hm t ht => ihn m (by omega) ht
      cases hfound : (levelTurn source.toList n s).value with
      | none =>
        have hend : (levelEntries source.toList n s).next = (levelTurn source.toList n s).next :=
          (Parse.many_of_none hfound).2
        rwa [hend]
      | some found =>
        have hlt : (levelTurn source.toList n s).next.rest.length < s.rest.length :=
          (turn_progress _ _ s).resolve_left
            (by rw [show (turn _ _ s).value = _ from hfound]; exact nofun)
        have hreaches := reaches_levelTurn source.toList n s
        rw [(levelEntries_of_some hfound).2]
        refine hturn.trans hs.spaced hreaches (reaches_levelEntries _ _ _) ?_
        exact (ih _ hlt (hs.mono hreaches) rfl).mono fun _ ⟨k, t, hcomes, hbrace⟩ =>
          ⟨k, t, .next hfound hcomes, hbrace⟩

end Turns

/-! ## Files -/

/-- In a file from `s` on the parser comes to an entry with the brace `b`, which nests too
deeply. -/
def TooDeepInFile (cs : List Char) (s b : State) : Prop :=
  ∃ k t, InFile cs s k t ∧ Brace cs k t 0 b

section Files

variable {source : String} {s t b : State} {k : Nat}

/-- A whole file adds its reports in the order of their places. -/
theorem allEntries_adds (hs : Sited source s) :
    Adds (TooDeepInFile source.toList s) s (allEntries source.toList s).next := by
  generalize hlength : s.rest.length = length
  induction length using Nat.strong_induction_on generalizing s with
  | _ length ih =>
    subst hlength
    have htop : Adds (TooDeepInFile source.toList s) s (topEntries source.toList s).next :=
      (levelEntries_adds Parse.maxNesting hs).mono fun _ ⟨k, t, hcomes, hbrace⟩ =>
        ⟨k, t, .here hcomes, hbrace⟩
    have hreaches := reaches_topEntries source.toList s
    rcases entriesWith_end _ _ s with hend | hclose
    · rwa [(allEntries_of_end hend).2]
    -- The report of a stray brace is of another sort, and the rest is shorter.
    · have hstray := reaches_pastStray (topEntries source.toList s).next
      have hpast := hreaches.trans hstray
      have hend : (topEntries source.toList s).next.kind ≠ .endOfInput := by
        rw [show (topEntries source.toList s).next.kind = _ from hclose]
        decide
      have hlt := Nat.lt_of_lt_of_le (length_pastStray_lt hend)
        (Parse.length_next_le (topEntries source.toList) s)
      have hreported : tooDeeps (pastStray (topEntries source.toList s).next) =
          tooDeeps (topEntries source.toList s).next :=
        (tooDeeps_advance _).trans (tooDeeps_report (isTooDeep_unexpected _ _) _)
      rw [(allEntries_of_stray hclose).2]
      refine (htop.trans hs.spaced hreaches hstray (Adds.of_same hreported)).trans hs.spaced hpast
        (reaches_allEntries _ _) ?_
      exact (ih _ hlt (hs.mono hpast) rfl).mono fun _ ⟨k, t, hfile, hbrace⟩ =>
        ⟨k, t, .stray hclose hfile, hbrace⟩

/-- The scanner reports nothing of braces. -/
theorem isTooDeep_of_mem_scan {d : Diagnostic} (h : d ∈ (scan source).diagnostics) :
    isTooDeep d = false := by
  have hpieces : ∀ (ps : List Piece) (start : Nat), d ∈ Piece.diagnostics start ps →
      isTooDeep d = false := by
    intro ps
    induction ps with
    | nil => exact nofun
    | cons p ps ih =>
      intro start hd
      rw [Piece.diagnostics, List.mem_append] at hd
      rcases hd with hd | hd
      · rw [Option.mem_toList, Piece.diagnostic?] at hd
        split at hd <;> cases hd <;> rfl
      · exact ih _ hd
  exact hpieces _ _ h

/-- What is reported of braces that nest too deeply in a file, and in which order. -/
theorem exists_tooDeeps (source : String) :
    ∃ bs : List State, ((parse source).diagnostics.filter isTooDeep).Perm (bs.map tooDeepAt) ∧
      (bs.map tooDeepAt).Nodup ∧
      ∀ b ∈ bs, TooDeepInFile source.toList (.initial (scan source).tokens) b := by
  -- The reports are sorted in the end, which only permutes them.
  obtain ⟨bs, hbs, hordered, hplaced⟩ := allEntries_adds (Sited.initial source)
  have hnone : tooDeeps (.initial (scan source).tokens) = [] := by
    rw [tooDeeps, (Parse.initial_found _).2.2.1]
    rfl
  have hscan : (scan source).diagnostics.filter isTooDeep = [] :=
    List.filter_eq_nil_iff.2 fun d hd => by simp [isTooDeep_of_mem_scan hd]
  refine ⟨bs, ?_, ?_, fun b hb => (hplaced b hb).2.2⟩
  · have hperm := (Diagnostic.sortByStart_perm ((scan source).diagnostics ++
      (allEntries source.toList (.initial (scan source).tokens)).next.diagnostics.toList)).filter
      isTooDeep
    rw [List.filter_append, hscan, List.nil_append] at hperm
    rw [hnone, List.nil_append] at hbs
    exact hbs ▸ hperm
  · -- Two braces with the same report would stand in the same place.
    refine List.pairwise_map.2 (hordered.imp fun hlt hsame => ?_)
    exact Nat.ne_of_lt hlt (congrArg (fun d : Diagnostic => d.span.start) hsame)

/-- A brace that nests too deeply is reported once, and no entry starts in what is written of its
own entry up to the brace. -/
theorem count_tooDeepAt (hfile : InFile source.toList (.initial (scan source).tokens) k t)
    (hbrace : Brace source.toList k t 0 b) :
    (parse source).diagnostics.count (tooDeepAt b) = 1 ∧
      ∀ es, Siblings (parse source).entries es → ∀ e ∈ es,
        e.span.start < t.token.span.start ∨ b.token.span.stop ≤ e.span.start := by
  have hsited := Sited.initial source
  obtain ⟨hdropped, hnext⟩ := hbrace.turn
  constructor
  · obtain ⟨bs, hperm, hnodup, -⟩ := exists_tooDeeps source
    rw [← List.count_filter (p := isTooDeep) (a := tooDeepAt b) rfl, hperm.count_eq]
    refine List.count_eq_one_of_mem hnodup (hperm.mem_iff.1 (List.mem_filter.2 ⟨?_, rfl⟩))
    -- What the turn reports is still there at the end.
    have hreported : tooDeepAt b ∈ (Parse.report (tooDeepAt b) b).next.diagnostics.toList := by
      simp
    have hread := (reaches_synchronize t _).trans (hnext ▸ hfile.reaches_end hdropped)
    exact (Diagnostic.sortByStart_perm _).mem_iff.2
      (List.mem_append_right _ (hread.diagnostics.subset hreported))
  · intro es hes e he
    have hstop := hbrace.stop_le_turn (hsited.mono hfile.reaches)
    rcases hfile.clear hsited hdropped es hes e he with hbefore | hbehind
    · exact .inl hbefore
    · exact .inr (Nat.le_trans hstop hbehind)

end Files

/-- Every loop over the tokens of a file comes to its end, and so does reading the file. -/
structure ReadsToEnd (source : String) : Prop where
  /-- A turn of the loop over entries reads a token, or it is the last one. -/
  turn : ∀ n s, (levelTurn source.toList n s).value = none ∨
    Parse.Shortens (levelTurn source.toList n) s
  /-- The loop is not cut off, and each of its turns has the levels of the first, whatever was read
  or could not be read before it. -/
  entries : ∀ n s, Parse.Loop (levelTurn source.toList n) s
    (many (levelTurn source.toList n) s).value (many (levelTurn source.toList n) s).next
  stray : ∀ s, (strayTurn source.toList s).value = none ∨
    Parse.Shortens (strayTurn source.toList) s
  strays : ∀ s, Parse.Loop (strayTurn source.toList) s
    (many (strayTurn source.toList) s).value (many (strayTurn source.toList) s).next
  /-- A further item of an array is read only behind a comma that has been read. -/
  items : ∀ n s,
    let items := commaList .closeCurly "`,` or `\x7d`" (valueWith source.toList
      (array source.toList n))
    Items .closeCurly "`,` or `\x7d`" (valueWith source.toList (array source.toList n)) s
      (items.run s).value (items.run s).next
  /-- Raw text is read up to the first token that ends it. -/
  word : ∀ s, (word source.toList s).next.rest = s.rest.dropWhile fun t => !endsWord t.kind
  /-- What is passed over of an entry ends here, behind the next token, or further on. -/
  passed : ∀ depth t ts, entryLength depth (t :: ts) ≤ 1 ∨
    ∃ depth', entryLength depth (t :: ts) = entryLength depth' ts + 1
  /-- Behind an entry that cannot be read a token at least has been passed over. -/
  synchronized : ∀ start s : State, start.kind ≠ .endOfInput → s.rest <:+ start.rest →
    (synchronize start s).next.rest.length < start.rest.length
  /-- No token is left of the file. -/
  rest : (allEntries source.toList (.initial (scan source).tokens)).next.rest = []

/-- Nothing with a brace is inside of more than 127 classes and arrays, and no class at all inside
of more than 128. -/
structure WithinLimit (file : List Entry) : Prop where
  announced : ∀ d es c, AtDepth file d es → .nested c ∈ es → d ≤ Parse.maxNesting
  classes : ∀ d es c, AtDepth file d es → .nested c ∈ es → c.isForward = false →
    d ≤ Parse.maxNesting - 1
  arrays : ∀ d items, ValueAtDepth file d (.array items) → d ≤ Parse.maxNesting - 1

/-- The braces of classes and arrays for which no level is left are reported, each of them once,
and nothing else is reported as such a brace. There is no entry for the class or the property with
this brace. -/
structure RefusesDeepBraces (source : String) : Prop where
  refused : ∀ k t b, InFile source.toList (.initial (scan source).tokens) k t →
    Brace source.toList k t 0 b →
    (parse source).diagnostics.count (tooDeepAt b) = 1 ∧
      ∀ es, Siblings (parse source).entries es → ∀ e ∈ es,
        e.span.start < t.token.span.start ∨ b.token.span.stop ≤ e.span.start
  reported : ∀ d ∈ (parse source).diagnostics, isTooDeep d = true →
    ∃ k t b, InFile source.toList (.initial (scan source).tokens) k t ∧
      Brace source.toList k t 0 b ∧ d = tooDeepAt b

/-- A file is read to its end, its classes and arrays are nested to the limit at most, and a brace
that would go beyond it is reported once and its entry left out. -/
theorem nesting_limited (source : String) :
    ReadsToEnd source ∧ WithinLimit (parse source).entries ∧ RefusesDeepBraces source := by
  refine ⟨⟨fun n => turn_progress _ _, fun n => loop_of_progress (turn_progress _ _),
    strayTurn_progress _, loop_of_progress (strayTurn_progress _), ?_, rest_word _,
    entryLength_step, fun _ _ => synchronize_shortens, rest_allEntries source⟩, ⟨?_, ?_, ?_⟩,
    ⟨fun k t b => count_tooDeepAt, ?_⟩⟩
  · exact fun n s => Parse.commaList_items (by decide) _ _ s
  · exact fun d es c h hc => (h.class_le (parse_nests source) hc).1
  · exact fun d es c h hc hbody =>
      Nat.le_sub_one_of_lt ((h.class_le (parse_nests source) hc).2 hbody)
  · exact fun d items h => Nat.le_sub_one_of_lt (h.array_lt (parse_nests source))
  · intro d hd htoo
    obtain ⟨bs, hperm, -, hfile⟩ := exists_tooDeeps source
    obtain ⟨b, hb, rfl⟩ := List.mem_map.1 (hperm.mem_iff.1 (List.mem_filter.2 ⟨hd, htoo⟩))
    obtain ⟨k, t, ht, hbrace⟩ := hfile b hb
    exact ⟨k, t, b, ht, hbrace, rfl⟩

/-! ## Arrays in a row -/

section Openers

variable {s : State} {name sign : Token} {ts : List Token}

/-- A name and a sign lead to a value. -/
theorem hasValue_of_tokens (hrest : s.rest = name :: sign :: ts) (hname : name.isName = true)
    (hclass : sameName name.value "class" = false) (hsign : sign.kind = .assignment) :
    ∃ v, HasValue s v ∧ v.rest = ts := by
  obtain ⟨t, v, hread, hbrackets, hassignment, hv, -⟩ := runs_sign hrest hsign
  have htoken := State.token_cons hrest
  have hbehind : (Parse.advance s).next = t := hread.2
  refine ⟨v, ⟨by rwa [htoken], by rwa [htoken], false, false, t, ?_, hassignment⟩, hv⟩
  rwa [hbehind]

/-- Of opening braces in a row each but the last takes a level. -/
theorem arrayBrace_of_openers (cs : List Char) {last : Token} {openers : List Token}
    (hrest : s.rest = openers ++ last :: ts) (h : ∀ t ∈ openers, t.kind = .openCurly)
    (hlast : last.kind = .openCurly) :
    ∃ b, ArrayBrace cs openers.length s 0 b ∧ b.token = last := by
  induction openers generalizing s with
  | nil => exact ⟨s, .here ((State.kind_cons hrest).trans hlast), State.token_cons hrest⟩
  | cons t openers ih =>
    obtain ⟨hfirst, hothers⟩ := List.forall_mem_cons.1 h
    have hinside : (Parse.advance s).next.rest = openers ++ last :: ts := by
      rw [Parse.next_advance hrest]
      rfl
    obtain ⟨b, hbrace, hb⟩ := ih hinside hothers
    exact ⟨b, .item ((State.kind_cons hrest).trans hfirst)
      (.here (by rw [hbrace.kind]; decide)) hbrace, hb⟩

end Openers

/-- Arrays nested to one level more than the limit, and a property behind them. -/
def deepArrays : List Char :=
  "x = ".toList ++ List.replicate 129 '\x7b' ++ List.replicate 129 '\x7d' ++ "; y = 1;".toList

theorem nesting_limited_deepArrays :
    (parse (.ofList deepArrays)).diagnostics.count ⟨.nestingTooDeep 128, ⟨132, 133⟩⟩ = 1 ∧
      ∀ es, Siblings (parse (.ofList deepArrays)).entries es → ∀ e ∈ es, 133 ≤ e.span.start := by
  have htokens : (State.initial (scan (.ofList deepArrays)).tokens).rest =
      Piece.tokens 0 (pieces deepArrays) := by
    rw [rest_initial, String.toList_ofList]
  -- The brace that is one too many is found by scanning the text.
  have hsplit : Piece.tokens 0 (pieces deepArrays) =
      ⟨.identifier, "x", ⟨0, 1⟩⟩ :: ⟨.assignment, "=", ⟨2, 3⟩⟩ ::
        (((Piece.tokens 0 (pieces deepArrays)).drop 2).take 128 ++
          ⟨.openCurly, "\x7b", ⟨132, 133⟩⟩ :: (Piece.tokens 0 (pieces deepArrays)).drop 131) := by
    decide +kernel
  have hopeners : ((Piece.tokens 0 (pieces deepArrays)).drop 2).take 128 |>.all
      (·.kind == .openCurly) := by
    decide +kernel
  have hlength : (((Piece.tokens 0 (pieces deepArrays)).drop 2).take 128).length = 128 := by
    decide +kernel
  generalize Piece.tokens 0 (pieces deepArrays) = tokens at htokens hsplit hopeners hlength
  generalize hs : State.initial (scan (.ofList deepArrays)).tokens = s at htokens
  have hrest := htokens.trans hsplit
  obtain ⟨v, hvalue, hv⟩ := hasValue_of_tokens hrest rfl (by decide +kernel) rfl
  obtain ⟨b, hbrace, hb⟩ := arrayBrace_of_openers (String.ofList deepArrays).toList hv
    (fun t ht => beq_iff_eq.1 (List.all_eq_true.1 hopeners t ht)) rfl
  rw [hlength] at hbrace
  obtain ⟨hcount, hplaces⟩ := (nesting_limited (.ofList deepArrays)).2.2.refused 128 s b
    (hs ▸ .here .here) (.ofArray hvalue hbrace)
  rw [tooDeepAt, hb] at hcount
  rw [hb, State.token_cons hrest] at hplaces
  exact ⟨hcount, fun es hes e he => (hplaces es hes e he).resolve_left (Nat.not_lt_zero _)⟩

end Sqf.Config
