import Sqf.Proofs.Config.Braces

/-!
# Where a class ends

The entries of a class end before the brace that closes it, whatever is wrong with them, if
no raw text in them has an opening brace (`entries_stop`). An entry that cannot be read may
leave braces open, and the passing over of tokens behind it counts these and closes them
(`stays_synchronize`).
-/

namespace Sqf.Config

open Parse (State state kind advance report failUnexpected many ShortensOrFails)

/-! ## Classes -/

mutual

/-- Some raw text in the entry, or in an entry inside of it, has an opening brace. -/
def Entry.holdsBrace : Entry → Bool
  | .property p => p.value.holdsBrace
  | .nested c => c.holdsBrace

def Class.holdsBrace : Class → Bool
  | ⟨_, _, entries, _, _⟩ => entriesHoldBrace entries

def entriesHoldBrace : List Entry → Bool
  | [] => false
  | e :: es => e.holdsBrace || entriesHoldBrace es

end

/-- All braces that were opened are closed and no other one, unless the end of input was met. -/
def Stays (s t : State) : Prop := ∃ k, Reads k s t ∧ (k = 0 ∨ t.rest = [])

section Entries

variable {source : List Char} {s t u : State} {free : α → Prop} {free' : β → Prop}

theorem Reads.stays (h : Reads 0 s t) : Stays s t := ⟨0, h, .inl rfl⟩

/-- Two parts that stay in a class, or that end with the file. -/
theorem Stays.trans (h : Stays s t) (h' : Stays t u) : Stays s u := by
  obtain ⟨j, hj, hstop⟩ := h
  obtain ⟨k, hk, hstop'⟩ := h'
  refine ⟨j + k, hj.trans hk, ?_⟩
  rcases hstop with rfl | hnil
  · rwa [Nat.zero_add]
  · exact .inr (hk.rest_eq_nil hnil)

/-- What the parser gives is read to its end if it is `free`. If the parser fails, it has closed
no brace that it did not open. -/
structure Settles (x : Attempt α) (free : α → Prop) (s : State) : Prop where
  ok : ∀ a, (x.run s).value = .ok a → free a → Stays s (x.run s).next
  error : ∀ d, (x.run s).value = .error d → ∃ k, Reads k s (x.run s).next

/-- A parser that climbs nowhere settles. -/
theorem Climbs.settles {x : Attempt α} (h : Climbs x free s) : Settles x free s := by
  obtain ⟨k, hk, hzero⟩ := h
  exact ⟨fun a ha hfree => ⟨k, hk, .inl (hzero a ha hfree)⟩, fun _ _ => ⟨k, hk⟩⟩

/-- What is level may stand in front of what settles. -/
theorem Level.bind_settles {x : Attempt α} {f : α → Attempt β} (h : Level x s)
    (hf : ∀ a, (x.run s).value = .ok a → Settles (f a) free' (x.run s).next) :
    Settles (x >>= f) free' s := by
  -- A failure of the first part leaves no brace open that is not counted.
  cases hvalue : (x.run s).value with
  | error d =>
    obtain ⟨herror, hnext⟩ := Attempt.bind_error (f := f) hvalue
    refine ⟨fun b hb => ?_, fun _ _ => ⟨0, by rwa [hnext]⟩⟩
    rw [herror] at hb
    cases hb
  | ok a =>
    obtain ⟨hok, hnext⟩ := Attempt.bind_ok (f := f) hvalue
    have hrest := hf a hvalue
    constructor
    · intro b hb hfree
      rw [hok] at hb
      rw [hnext]
      exact (Reads.stays h).trans (hrest.ok b hb hfree)
    · intro d hd
      rw [hok] at hd
      obtain ⟨k, hk⟩ := hrest.error d hd
      rw [hnext]
      exact ⟨0 + k, Reads.trans h hk⟩

theorem Settles.kind_bind {f : Kind → Attempt β} (h : Settles (f s.kind) free' s) :
    Settles (liftM kind >>= f) free' s := ⟨h.ok, h.error⟩

theorem Settles.state_bind {f : State → Attempt β} (h : Settles (f s) free' s) :
    Settles (liftM state >>= f) free' s := ⟨h.ok, h.error⟩

/-- What is made of a value that is given is `free` only if that value is. -/
theorem Settles.map {x : Attempt α} {g : α → β} (h : Settles x free s)
    (hfree : ∀ a, free' (g a) → free a) : Settles (do return g (← x)) free' s := by
  obtain ⟨hvalue, hnext⟩ := Attempt.bind_pure (x := x) (s := s) g
  constructor
  · intro b hb hfree'
    rw [hvalue] at hb
    rw [hnext]
    -- The value is only renamed, so both runs succeed or fail together.
    cases ha : (x.run s).value with
    | error d =>
      rw [ha] at hb
      cases hb
    | ok a =>
      rw [ha] at hb
      cases hb
      exact h.ok a ha (hfree a hfree')
  · intro d hd
    rw [hvalue] at hd
    rw [hnext]
    cases ha : (x.run s).value with
    | error e => exact h.error e ha
    | ok a =>
      rw [ha] at hd
      cases hd

/-- Entries behind an opening brace end before the brace that closes it, or at the end of
input. -/
structure Stops (body : Attempt (List Entry)) (s : State) : Prop where
  ok : ∀ es, (body.run s).value = .ok es → entriesHoldBrace es = false →
    ∃ k, Reads k s (body.run s).next ∧
      (k = 1 ∧ (body.run s).next.kind = .closeCurly ∨ (body.run s).next.rest = [])
  error : ∀ d, (body.run s).value = .error d → Reads 0 s (body.run s).next

/-- The closing brace takes back the one that is still open. -/
theorem stays_closing {k : Nat} (h : Reads k s t)
    (hstop : k = 1 ∧ t.kind = .closeCurly ∨ t.rest = []) : Stays s (closing t).next := by
  have hnext : (closing t).next = ((if t.kind = .closeCurly then do
      let brace ← advance
      terminator brace.span.stop
      return brace.span
    else do
      Parse.reportUnexpected "`\x7d`"
      return t.token.span : Parse Span) t).next := rfl
  rcases hstop with ⟨rfl, hclose⟩ | hnil
  · rw [hnext, if_pos hclose]
    exact (Reads.trans (h.closer hclose) (reads_terminator _ _)).stays
  · have hopen : t.kind ≠ .closeCurly := by
      rw [State.kind_nil hnil]
      decide
    rw [hnext, if_neg hopen]
    exact ⟨k, h, .inr hnil⟩

/-- The entries of a class and the brace that closes it. -/
theorem Stops.settles {body : Attempt (List Entry)} {g : List Entry → Span → Class}
    (h : Stops body s) (hg : ∀ es span, (g es span).holdsBrace = entriesHoldBrace es) :
    Settles (do
      let entries ← body
      let close ← (closing : Parse Span)
      return g entries close) (·.holdsBrace = false) s := by
  -- What stands behind the body is split off, to use what is known of the body.
  let close (es : List Entry) : Attempt Class := do return g es (← (closing : Parse Span))
  cases hvalue : (body.run s).value with
  | error d =>
    obtain ⟨herror, hnext⟩ := Attempt.bind_error (f := close) hvalue
    refine ⟨fun c hc => ?_, fun _ _ => ⟨0, ?_⟩⟩
    · rw [herror] at hc
      cases hc
    · rw [hnext]
      exact h.error d hvalue
  | ok es =>
    obtain ⟨hok, hnext⟩ := Attempt.bind_ok (f := close) hvalue
    refine ⟨fun c hc hfree => ?_, fun d hd => ?_⟩
    · rw [hok] at hc
      cases hc
      rw [hg] at hfree
      obtain ⟨k, hk, hstop⟩ := h.ok es hvalue hfree
      rw [hnext]
      exact stays_closing hk hstop
    · rw [hok] at hd
      cases hd

/-- A class settles: it closes what it opens, unless a raw text holds a brace. -/
theorem settles_classWith {body : Attempt (List Entry)}
    (hbody : ∀ t, Within source t → t.kind = .openCurly → Stops body t)
    (h : Within source s) (hname : s.token.isName = true) :
    Settles (classWith body) (·.holdsBrace = false) s := by
  obtain ⟨hopen, hclose⟩ := kind_of_isName hname
  refine (Level.advance hopen hclose).bind_settles fun start _ => ?_
  refine (level_name _).bind_settles fun name _ => ?_
  refine level_parent.bind_settles fun base _ => ?_
  have hwithin := ((h.next Parse.advance).next (Config.name "a class name").run).next parent.run
  generalize hnext : (parent.run ((Config.name "a class name").run
    (Parse.advance s).next).next).next = t at hwithin
  show Settles _ _ (parent.run ((Config.name "a class name").run (Parse.advance s).next).next).next
  rw [hnext]
  refine Settles.kind_bind ?_
  split
  · next hkind =>
    have hread : Level (liftM Parse.advance : Attempt Token) t :=
      Level.advance (by rw [hkind]; decide) (by rw [hkind]; decide)
    exact hread.bind_settles fun stop _ => (Level.pure _).climbs.settles
  · next hkind => exact (hbody t hwithin hkind).settles fun _ _ => rfl
  · exact (Level.failUnexpected _).climbs.settles

/-! ## Entries -/

/-- So does any entry. -/
theorem settles_entry {body : Attempt (List Entry)} {value : Attempt Value}
    (hbody : ∀ t, Within source t → t.kind = .openCurly → Stops body t)
    (hvalue : ∀ t, Within source t → Climbs value (·.holdsBrace = false) t)
    (h : Within source s) : Settles (entry body value) (·.holdsBrace = false) s := by
  refine Settles.state_bind ?_
  dsimp only
  split
  · exact (Level.failUnexpected _).climbs.settles
  next hname =>
  rw [Bool.not_eq_true, Bool.not_eq_false'] at hname
  split
  · refine (settles_classWith hbody h hname).map fun c hfree => ?_
    rwa [Entry.holdsBrace] at hfree
  · refine (climbs_property hvalue h hname).settles.map fun p hfree => ?_
    rwa [Entry.holdsBrace] at hfree

/-- An entry that can be read begins with a name, which is read. -/
theorem entry_shortens (body : Attempt (List Entry)) (value : Attempt Value)
    (hend : s.kind ≠ .endOfInput) : ShortensOrFails (entry body value) s := by
  refine Parse.shortensOrFails_state_bind ?_
  have hread := Parse.advance_shortens hend
  dsimp only
  split
  · exact Parse.shortensOrFails_throw _ _
  split
  · exact (hread.lift_bind _).bind _
  · exact (hread.lift_bind _).bind _

/-- What is skipped has at least one token. -/
theorem entryLength_pos {t : Token} (ts : List Token) (hend : t.kind ≠ .endOfInput)
    (hclose : t.kind ≠ .closeCurly) : 0 < entryLength 0 (t :: ts) := by
  rw [entryLength]
  split <;> first | contradiction | simp

/-- Where an entry cannot be read the rest of it is passed over, or one token if nothing has been
read. -/
theorem next_synchronize {start after : State}
    (h : s.drop (entryLength (openBraces (s.readSince start)) s.rest) = after) :
    (synchronize start s).next =
      if after.rest.length = start.rest.length then (Parse.advance after).next else after := by
  have hrun : (synchronize start s).next = ((if after.rest.length = start.rest.length then
      advance >>= fun _ => pure () else pure () : Parse Unit) after).next := by
    rw [← h]
    rfl
  rw [hrun]
  split <;> rfl

/-- So skipping reads something. -/
theorem synchronize_shortens {start : State} (hend : start.kind ≠ .endOfInput)
    (h : s.rest <:+ start.rest) :
    (synchronize start s).next.rest.length < start.rest.length := by
  generalize hafter : s.drop (entryLength (openBraces (s.readSince start)) s.rest) = after
  have hsuffix : after.rest <:+ start.rest := by
    rw [← hafter]
    exact (List.drop_suffix _ _).trans h
  rw [next_synchronize hafter]
  split
  · next hsame =>
    have hkind := State.kind_congr (hsuffix.eq_of_length hsame) hend
    rw [← hsame]
    exact Parse.advance_shortens (hkind ▸ hend)
  · next hless => exact Nat.lt_of_le_of_ne hsuffix.length_le hless

/-- What an entry has read and the rest of it are a token at least: if the entry has read nothing
then its first token is passed over. -/
theorem length_drop_entry_lt {start : State} {k : Nat} (hend : start.kind ≠ .endOfInput)
    (hclose : start.kind ≠ .closeCurly) (h : Reads k start s) :
    (s.rest.drop (entryLength k s.rest)).length < start.rest.length := by
  obtain ⟨front, hfront, hdepth⟩ := h
  rw [List.length_drop]
  cases front with
  | cons t front =>
    rw [hfront, List.length_append, List.length_cons]
    omega
  | nil =>
    cases hdepth
    obtain ⟨ts, hts⟩ := State.exists_cons hend
    have hpos := entryLength_pos (t := start.token) ts hend hclose
    rw [List.nil_append] at hfront
    rw [← hfront, hts, List.length_cons]
    omega

/-- Passing over the rest of an entry closes what the entry has opened. -/
theorem stays_synchronize {start : State} {k : Nat} (hstart : Within source start)
    (hend : start.kind ≠ .endOfInput) (hclose : start.kind ≠ .closeCurly) (h : Reads k start s) :
    Stays start (synchronize start s).next := by
  obtain ⟨front, hfront, hdepth⟩ := h
  have hsince : s.readSince start = front := by
    rw [State.readSince, hfront, List.length_append, Nat.add_sub_cancel]
    exact List.take_left
  -- The braces that the entry has opened are counted again over the tokens that were read.
  have hopen : openBraces (s.readSince start) = k := by
    rw [hsince]
    exact openBraces_of_depth hdepth
  generalize hafter : s.drop (entryLength k s.rest) = after
  have hrest : after.rest = s.rest.drop (entryLength k s.rest) := by
    rw [← hafter]
    rfl
  have hlt : after.rest.length < start.rest.length := by
    rw [hrest]
    exact length_drop_entry_lt hend hclose ⟨front, hfront, hdepth⟩
  rw [← hopen] at hafter
  rw [next_synchronize hafter, if_neg (Nat.ne_of_lt hlt)]
  have hkinds : ∀ t ∈ s.rest, t.kind ≠ .endOfInput := by
    intro t ht
    exact hstart.kind_ne t (by rw [hfront]; exact List.mem_append_right _ ht)
  obtain ⟨n, hn, hstop⟩ := depth?_entryLength hkinds k
  refine ⟨n, ⟨front ++ s.rest.take (entryLength k s.rest), ?_, ?_⟩, ?_⟩
  · rw [hrest, List.append_assoc, List.take_append_drop, hfront]
  · rw [List.map_append, depth?_append hdepth, hn]
  · rwa [hrest]

/-- A turn of the loop over entries: it is the last one before a closing brace or the end of
input, else it reads something. -/
structure Turns (p : Parse (Option (Option Entry))) (s : State) : Prop where
  none : (p s).value = none →
    (p s).next = s ∧ (s.kind = .endOfInput ∨ s.kind = .closeCurly)
  some : ∀ found, (p s).value = some found → (p s).next.rest.length < s.rest.length ∧
    ((∀ e, found = some e → e.holdsBrace = false) → Stays s (p s).next)

section Turn

variable (body : Attempt (List Entry)) (value : Attempt Value)

/-- A turn, as it is run. -/
theorem turn_apply (s : State) :
    turn body value s = (match s.kind with
      | .endOfInput | .closeCurly => return none
      | .semicolon => do
        let _ ← advance
        return some none
      | _ => do
        let start ← state
        match ← (entry body value).run with
        | .ok e => return some (some e)
        | .error d =>
          report d
          synchronize start
          return some none : Parse (Option (Option Entry))) s := rfl

/-- The loop ends at the end of the file or of the class. -/
theorem turn_of_end (h : s.kind = .endOfInput ∨ s.kind = .closeCurly) :
    (turn body value s).value = none ∧ (turn body value s).next = s := by
  rw [turn_apply]
  rcases h with h | h <;> rw [h] <;> exact ⟨rfl, rfl⟩

/-- A semicolon that stands alone is read and gives no entry. -/
theorem turn_of_stray (h : s.kind = .semicolon) :
    (turn body value s).value = some none ∧
      (turn body value s).next = (Parse.advance s).next := by
  rw [turn_apply, h]
  exact ⟨rfl, rfl⟩

variable {body value}

/-- Where no separator and no end is next, a turn is an entry or what is passed over instead. -/
theorem turn_of_entry (hend : s.kind ≠ .endOfInput) (hclose : s.kind ≠ .closeCurly)
    (hstray : s.kind ≠ .semicolon) :
    turn body value s = (do
      let start ← state
      match ← (entry body value).run with
      | .ok e => return some (some e)
      | .error d =>
        report d
        synchronize start
        return some none : Parse (Option (Option Entry))) s := by
  rw [turn_apply]
  generalize s.kind = k at hend hclose hstray ⊢
  cases k <;> first | contradiction | rfl

/-- An entry that is read is given. -/
theorem turn_of_ok {e : Entry}
    (hend : s.kind ≠ .endOfInput) (hclose : s.kind ≠ .closeCurly) (hstray : s.kind ≠ .semicolon)
    (he : ((entry body value).run s).value = .ok e) :
    (turn body value s).value = some (some e) ∧
      (turn body value s).next = ((entry body value).run s).next := by
  rw [turn_of_entry hend hclose hstray]
  simp only [Parse.value_bind, Parse.next_bind, Parse.value_state, Parse.next_state, he]
  exact ⟨rfl, rfl⟩

/-- One that fails is reported and skipped. -/
theorem turn_of_error {d : Diagnostic}
    (hend : s.kind ≠ .endOfInput) (hclose : s.kind ≠ .closeCurly) (hstray : s.kind ≠ .semicolon)
    (hd : ((entry body value).run s).value = .error d) :
    (turn body value s).value = some none ∧ (turn body value s).next =
      (synchronize s (report d ((entry body value).run s).next).next).next := by
  rw [turn_of_entry hend hclose hstray]
  simp only [Parse.value_bind, Parse.next_bind, Parse.value_state, Parse.next_state, hd]
  exact ⟨rfl, rfl⟩

variable (body value) in
/-- What a turn does from the state `s`: it gives this and stops there. -/
inductive Turned (s : State) : Option (Option Entry) → State → Prop where
  | last (h : s.kind = .endOfInput ∨ s.kind = .closeCurly) : Turned s none s
  | stray (h : s.kind = .semicolon) : Turned s (some none) (Parse.advance s).next
  | read {e : Entry} (hend : s.kind ≠ .endOfInput)
      (he : ((entry body value).run s).value = .ok e) :
      Turned s (some (some e)) ((entry body value).run s).next
  | dropped {d : Diagnostic} (hend : s.kind ≠ .endOfInput) (hclose : s.kind ≠ .closeCurly)
      (hd : ((entry body value).run s).value = .error d) :
      Turned s (some none) (synchronize s (report d ((entry body value).run s).next).next).next

variable (body value) in
/-- Every turn is one of these four. -/
theorem turned_turn (s : State) :
    Turned body value s (turn body value s).value (turn body value s).next := by
  by_cases hend : s.kind = .endOfInput
  · obtain ⟨hvalue, hnext⟩ := turn_of_end body value (.inl hend)
    rw [hvalue, hnext]
    exact .last (.inl hend)
  by_cases hclose : s.kind = .closeCurly
  · obtain ⟨hvalue, hnext⟩ := turn_of_end body value (.inr hclose)
    rw [hvalue, hnext]
    exact .last (.inr hclose)
  by_cases hstray : s.kind = .semicolon
  · obtain ⟨hvalue, hnext⟩ := turn_of_stray body value hstray
    rw [hvalue, hnext]
    exact .stray hstray
  cases hrun : ((entry body value).run s).value with
  | ok e =>
    obtain ⟨hvalue, hnext⟩ := turn_of_ok hend hclose hstray hrun
    rw [hvalue, hnext]
    exact .read hend hrun
  | error d =>
    obtain ⟨hvalue, hnext⟩ := turn_of_error hend hclose hstray hrun
    rw [hvalue, hnext]
    exact .dropped hend hclose hrun

/-- A turn that is not the last one reads a token. -/
theorem Turned.shortens {found : Option Entry} (h : Turned body value s (some found) t) :
    t.rest.length < s.rest.length := by
  cases h with
  | stray hstray => exact Parse.advance_shortens (by rw [hstray]; decide)
  | read hend he => exact entry_shortens body value hend _ he
  | dropped hend _ _ => exact synchronize_shortens hend ((entry body value).run s).suffix

/-- So every turn settles, and reads something unless it is the last one. -/
theorem turns_turn
    (hbody : ∀ t, Within source t → t.kind = .openCurly → Stops body t)
    (hvalue : ∀ t, Within source t → Climbs value (·.holdsBrace = false) t)
    (h : Within source s) : Turns (turn body value) s := by
  have hturned := turned_turn body value s
  constructor
  · intro hnone
    rw [hnone] at hturned
    generalize (turn body value s).next = t at hturned ⊢
    -- A semicolon is no brace, an entry settles, and one that fails is made up for by the skipping.
    cases hturned with
    | last hkind => exact ⟨rfl, hkind⟩
  · intro found hfound
    rw [hfound] at hturned
    refine ⟨hturned.shortens, fun hfree => ?_⟩
    generalize (turn body value s).next = t at hturned ⊢
    cases hturned with
    | stray hstray =>
      exact (Reads.other (by rw [hstray]; decide) (by rw [hstray]; decide)).stays
    | read _ he => exact (settles_entry hbody hvalue h).ok _ he (hfree _ rfl)
    | @dropped d hend hclose hd =>
      obtain ⟨k, hk⟩ := (settles_entry hbody hvalue h).error d hd
      exact stays_synchronize (s := (report d ((entry body value).run s).next).next)
        h hend hclose hk

end Turn

/-- The entries of a class end before the brace that closes it, whatever was wrong with them. -/
theorem entries_stop {body : Attempt (List Entry)} {value : Attempt Value}
    (hbody : ∀ t, Within source t → t.kind = .openCurly → Stops body t)
    (hvalue : ∀ t, Within source t → Climbs value (·.holdsBrace = false) t)
    (h : Within source s)
    (hfree : entriesHoldBrace (entriesWith body value s).value = false) :
    ∃ k, Reads k s (entriesWith body value s).next ∧
      (k = 0 ∧ (entriesWith body value s).next.kind = .closeCurly ∨
        (entriesWith body value s).next.rest = []) := by
  have hfound : (entriesWith body value s).value =
    (many (turn body value) s).value.filterMap id := rfl
  rw [hfound] at hfree
  show ∃ k, Reads k s (many (turn body value) s).next ∧
    (k = 0 ∧ (many (turn body value) s).next.kind = .closeCurly ∨
      (many (turn body value) s).next.rest = [])
  clear hfound
  generalize hlength : s.rest.length = length
  induction length using Nat.strong_induction_on generalizing s with
  | _ length ih =>
    subst hlength
    have hturn := turns_turn hbody hvalue h
    -- The loop stops at the closing brace, or goes on with less to read.
    cases hfirst : (turn body value s).value with
    | none =>
      obtain ⟨hsame, hkind⟩ := hturn.none hfirst
      rw [(Parse.many_of_none hfirst).2, hsame]
      rcases hkind with hkind | hkind
      · exact ⟨0, Reads.refl s, .inr (h.rest_eq_nil hkind)⟩
      · exact ⟨0, Reads.refl s, .inl ⟨rfl, hkind⟩⟩
    | some found =>
      obtain ⟨hlt, hstays⟩ := hturn.some found hfirst
      obtain ⟨hcons, hnext⟩ := Parse.many_of_some hfirst hlt
      rw [hcons] at hfree
      obtain ⟨hfirstFree, hothers⟩ : (∀ e, found = some e → e.holdsBrace = false) ∧
          entriesHoldBrace ((many (turn body value) (turn body value s).next).value.filterMap id) =
            false := by
        cases found with
        | none => exact ⟨nofun, hfree⟩
        | some e =>
          rw [List.filterMap_cons, id, entriesHoldBrace, Bool.or_eq_false_iff] at hfree
          exact ⟨fun _ he => Option.some.inj he ▸ hfree.1, hfree.2⟩
      obtain ⟨i, hi, hstop⟩ := hstays hfirstFree
      obtain ⟨j, hj, hstop'⟩ := ih _ hlt (h.next (turn body value)) hothers rfl
      rw [hnext]
      refine ⟨i + j, hi.trans hj, ?_⟩
      rcases hstop with rfl | hnil
      · rwa [Nat.zero_add]
      · exact .inr (hj.rest_eq_nil hnil)

/-- The body of a class stops at its closing brace, at every level. -/
theorem stops_body (n : Nat) :
    ∀ s, Within source s → s.kind = .openCurly → Stops (body source n) s := by
  induction n with
  | zero => exact fun s _ _ => ⟨nofun, fun _ _ => Reads.refl s⟩
  | succ n ih =>
    intro s h hkind
    refine ⟨fun es hes hfree => ?_, nofun⟩
    cases hes
    obtain ⟨k, hk, hstop⟩ := entries_stop ih (fun t ht => climbs_value n ht)
      (h.next Parse.advance) hfree
    refine ⟨1 + k, (Reads.opener hkind).trans hk, ?_⟩
    exact hstop.imp (fun hclosed => ⟨by rw [hclosed.1], hclosed.2⟩) id

/-! ## Balanced entries -/

/-- Among balanced tokens with a closing brace behind them there is no place to stop but that
brace. -/
theorem rest_of_stop {k : Nat} {inside back : List Token} {closer : Token}
    (hrest : s.rest = inside ++ closer :: back) (hbalanced : Balanced (inside.map Token.kind))
    (hcloser : closer.kind = .closeCurly) (h : Reads k s t)
    (hstop : k = 0 ∧ t.kind = .closeCurly ∨ t.rest = []) : t.rest = closer :: back := by
  obtain ⟨front, hfront, hdepth⟩ := h
  rw [hrest] at hfront
  rcases List.append_eq_append_iff.1 hfront with ⟨more, hmore, hback⟩ | ⟨more, hmore, hback⟩
  · cases more with
    | nil => exact hback.symm
    | cons t more =>
      -- The closing brace cannot have been read.
      obtain ⟨rfl, -⟩ := List.cons.inj hback
      rw [hmore, List.map_append, depth?_append hbalanced, List.map_cons, depth?_cons,
        hcloser] at hdepth
      cases hdepth
  · cases more with
    | nil => exact hback
    | cons u more =>
      obtain ⟨rfl, hclose⟩ := hstop.resolve_right (by rw [hback]; exact nofun)
      have hu : u.kind = .closeCurly := (State.kind_cons hback).symm.trans hclose
      unfold Balanced at hbalanced
      rw [hmore, List.map_append, depth?_append hdepth, List.map_cons, depth?_cons,
        hu] at hbalanced
      cases hbalanced

/-- The entries of a class whose braces are balanced end before the brace behind them. -/
theorem entries_end {n : Nat} {inside back : List Token} {closer : Token}
    (h : Within source s) (hrest : s.rest = inside ++ closer :: back)
    (hbalanced : Balanced (inside.map Token.kind)) (hcloser : closer.kind = .closeCurly)
    (hfree : entriesHoldBrace
      (entriesWith (body source n) (valueWith source (array source n)) s).value = false) :
    (entriesWith (body source n) (valueWith source (array source n)) s).next.rest =
      closer :: back := by
  obtain ⟨k, hk, hstop⟩ := entries_stop (stops_body n) (fun t ht => climbs_value n ht) h hfree
  exact rest_of_stop hrest hbalanced hcloser hk hstop

end Entries

end Sqf.Config
