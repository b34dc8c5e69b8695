import Sqf.Proofs.Config.Enclosed
import Sqf.Proofs.Config.Progress

/-!
# The braces that a parser comes to

From the start of a file a parser comes to entries one after the other, also behind one that it
cannot read, and in a class to those behind its opening brace. `Comes` says so, and `Brace` that
in an entry the parser comes to the brace of the class or of an array of its value. Both count
the levels of nesting that are left: each brace that a parser passes takes one.
-/

namespace Sqf

namespace Config

open Parse (State kind state advance many commaList Items)
open Attempt (Runs)

/-! ## Arrays -/

/-- From the state behind the brace of an array, or behind a comma in it, the parser comes to an
item. -/
inductive ItemAt (item : Attempt Value) : State → State → Prop where
  | here {s : State} (h : s.kind ≠ .closeCurly) : ItemAt item s s
  | next {s t u : State} {v : Value} (h : s.kind ≠ .closeCurly) (hitem : Runs item s v t)
    (hcomma : t.kind = .comma) (hmore : ItemAt item (Parse.advance t).next u) : ItemAt item s u

/-- A value that may have `n` levels has the brace of an array, from which on `k` levels are
left. -/
inductive ArrayBrace (source : List Char) : Nat → State → Nat → State → Prop where
  | here {n : Nat} {s : State} (h : s.kind = .openCurly) : ArrayBrace source n s n s
  | item {n k : Nat} {s t b : State} (h : s.kind = .openCurly)
    (hitem : ItemAt (valueWith source (array source n)) (Parse.advance s).next t)
    (hmore : ArrayBrace source n t k b) : ArrayBrace source (n + 1) s k b

/-! ## Entries -/

/-- A class is written from `s` on, and `b` is before its opening brace. -/
structure OpensClass (s b : State) : Prop where
  named : s.token.isName = true
  isClass : sameName s.token.value "class" = true
  head : ∃ text base t, Runs (name "a class name") (Parse.advance s).next text t ∧
    Runs parent t base b
  brace : b.kind = .openCurly

/-- A property is written from `s` on, and `v` is before its value. -/
structure HasValue (s v : State) : Prop where
  named : s.token.isName = true
  isClass : sameName s.token.value "class" = false
  head : ∃ isArray appends t, Runs brackets (Parse.advance s).next isArray t ∧
    Runs (assignment isArray) t appends v

/-- An entry that may have `n` levels has the brace of a class or of an array, from which on `k`
levels are left. -/
inductive Brace (source : List Char) (n : Nat) (s : State) : Nat → State → Prop where
  | ofClass {b : State} (h : OpensClass s b) : Brace source n s n b
  | ofArray {k : Nat} {v b : State} (h : HasValue s v) (hvalue : ArrayBrace source n v k b) :
    Brace source n s k b

/-- A turn of the loop over entries that may have `n` levels. -/
def levelTurn (source : List Char) (n : Nat) : Parse (Option (Option Entry)) :=
  turn (body source n) (valueWith source (array source n))

/-- From before an entry that may have `n` levels the parser comes to one, behind it or inside of
it, that may have `k` levels. -/
inductive Comes (source : List Char) : Nat → State → Nat → State → Prop where
  | here {n : Nat} {s : State} : Comes source n s n s
  | next {n k : Nat} {s t : State} {found : Option Entry}
    (h : (levelTurn source n s).value = some found)
    (hmore : Comes source n (levelTurn source n s).next k t) : Comes source n s k t
  | inside {n k : Nat} {s b t : State} (h : OpensClass s b)
    (hmore : Comes source n (Parse.advance b).next k t) : Comes source (n + 1) s k t

/-- In a file from `s` on the parser comes to an entry that may have `k` levels. Behind a stray
brace it goes on outside of all classes. -/
inductive InFile (source : List Char) : State → Nat → State → Prop where
  | here {s t : State} {k : Nat} (h : Comes source Parse.maxNesting s k t) : InFile source s k t
  | stray {s t : State} {k : Nat} (h : (topEntries source s).next.kind = .closeCurly)
    (hmore : InFile source (pastStray (topEntries source s).next) k t) : InFile source s k t

/-! ## Failing at a brace -/

end Config

namespace Attempt

open Parse (State)

/-- From the state `s` the parser fails with `d`, in the state `t`. -/
def Fails (x : Attempt α) (s : State) (d : Diagnostic) (t : State) : Prop :=
  (x.run s).value = .error d ∧ (x.run s).next = t

section Fails

variable {x : Attempt α} {f : α → Attempt β} {s t u : State} {a : α} {d : Diagnostic}

/-- A parser whose first part fails fails like it. -/
theorem Fails.bind (h : Fails x s d t) : Fails (x >>= f) s d t := by
  obtain ⟨hvalue, hnext⟩ := Attempt.bind_error (f := f) h.1
  exact ⟨hvalue, hnext.trans h.2⟩

/-- It fails as well where the second part does. -/
theorem Runs.bind_fails (h : Runs x s a t) (hf : Fails (f a) t d u) : Fails (x >>= f) s d u := by
  obtain ⟨hvalue, hnext⟩ := Attempt.bind_ok (f := f) h.1
  rw [h.2] at hvalue hnext
  exact ⟨hvalue.trans hf.1, hnext.trans hf.2⟩

theorem Fails.kind_bind {f : Kind → Attempt β} (h : Fails (f s.kind) s d t) :
    Fails (liftM Parse.kind >>= f) s d t := h

theorem Fails.advance_bind {f : Token → Attempt β}
    (h : Fails (f s.token) (Parse.advance s).next d t) :
    Fails (liftM Parse.advance >>= f) s d t := by
  rw [← Parse.value_advance] at h
  exact h

end Fails

end Attempt

namespace Config

open Parse (State kind state advance many commaList)
open Attempt (Runs Fails)

/-- What is reported of a brace that is next and nests too deeply. -/
def tooDeepAt (b : State) : Diagnostic := ⟨.nestingTooDeep Parse.maxNesting, b.token.span⟩

section Fails

variable {source : List Char} {n : Nat} {s t b v : State} {d : Diagnostic}

/-- The brace of a class is reached from its first token. -/
theorem OpensClass.reaches (h : OpensClass s b) : (Parse.advance s).next.Reaches b := by
  obtain ⟨text, base, t, ⟨-, rfl⟩, ⟨-, rfl⟩⟩ := h.head
  exact (reaches_name _ _).trans (reaches_parent _)

/-- A class whose body fails fails like it. -/
theorem OpensClass.fails {body : Attempt (List Entry)} (h : OpensClass s b)
    (hbody : Fails body b d t) : Fails (classWith body) s d t := by
  obtain ⟨text, base, u, htext, hbase⟩ := h.head
  refine Fails.advance_bind (htext.bind_fails (hbase.bind_fails (Fails.kind_bind ?_)))
  rw [h.brace]
  exact hbody.bind

/-- A class whose body is read has its entries, and ends with its closing brace. -/
theorem OpensClass.runs {body : Attempt (List Entry)} {es : List Entry} (h : OpensClass s b)
    (hbody : Runs body b es t) :
    ∃ text base, Runs (classWith body) s
      ⟨text, base, es, false, s.token.span.join (closing t).value⟩ (closing t).next := by
  obtain ⟨text, base, u, htext, hbase⟩ := h.head
  refine ⟨text.value, base, ?_⟩
  rw [← Parse.value_advance]
  refine (Runs.lift advance).bind (htext.bind (hbase.bind (Runs.kind_bind ?_)))
  rw [h.brace]
  exact hbody.bind ((Runs.lift closing).bind (Runs.pure _))

/-- The value in which the parser comes to the brace of an array starts with a brace. -/
theorem ArrayBrace.kind {k : Nat} (h : ArrayBrace source n s k b) : s.kind = .openCurly := by
  cases h with
  | here h => exact h
  | item h _ _ => exact h

/-- An item that cannot be read is the last one that the parser comes to. -/
theorem ItemAt.fails {item : Attempt Value} (h : ItemAt item s t) (hitem : Fails item t d b)
    (expectation : String) : Fails (commaList .closeCurly expectation item) s d b := by
  induction h with
  | here hkind =>
    rw [Parse.commaList_eq (by decide)]
    refine Fails.kind_bind ?_
    rw [if_neg hkind]
    exact hitem.bind
  | next hkind hread hcomma _ ih =>
    rw [Parse.commaList_eq (by decide)]
    refine Fails.kind_bind ?_
    rw [if_neg hkind]
    refine hread.bind_fails (Fails.kind_bind ?_)
    rw [if_pos hcomma]
    exact Fails.advance_bind (ih hitem).bind

/-- An array with a brace that nests too deeply cannot be read, and the parser stops at the
brace. -/
theorem ArrayBrace.fails (h : ArrayBrace source n s 0 b) :
    Fails (valueWith source (array source n)) s (tooDeepAt b) b := by
  -- Each brace before it has a level, so only the last one fails.
  generalize hk : 0 = k at h
  induction h with
  | @here n s hkind =>
    subst hk
    refine Fails.kind_bind ?_
    rw [hkind]
    exact ⟨rfl, rfl⟩
  | item hkind hitem _ ih =>
    refine Fails.kind_bind ?_
    rw [hkind]
    exact Fails.advance_bind (hitem.fails (ih hk) _).bind

/-- A property whose value fails fails like it. -/
theorem HasValue.fails {value : Attempt Value} (h : HasValue s v) (hkind : v.kind = .openCurly)
    (hvalue : Fails value v d t) : Fails (property value) s d t := by
  obtain ⟨isArray, appends, u, hbrackets, hsign⟩ := h.head
  refine Fails.advance_bind (hbrackets.bind_fails (hsign.bind_fails (Fails.kind_bind ?_)))
  rw [if_neg (by simp [hkind])]
  exact hvalue.bind

/-- An entry with a brace that nests too deeply cannot be read. -/
theorem Brace.fails (h : Brace source n s 0 b) :
    Fails (entry (body source n) (valueWith source (array source n))) s (tooDeepAt b) b := by
  generalize hk : 0 = k at h
  cases h with
  | ofClass h =>
    subst hk
    have hclass : Fails (classWith (body source 0)) s (tooDeepAt b) b := h.fails ⟨rfl, rfl⟩
    rw [Fails, entry_of_class _ _ h.named h.isClass]
    exact hclass.bind
  | ofArray h hvalue =>
    subst hk
    have hproperty := h.fails hvalue.kind hvalue.fails
    rw [Fails, entry_of_property _ _ h.named h.isClass]
    exact hproperty.bind

end Fails

/-! ## Turns on the way -/

/-- The entries from a state on, which may have `n` levels. -/
def levelEntries (source : List Char) (n : Nat) : Parse (List Entry) :=
  entriesWith (body source n) (valueWith source (array source n))

section Turns

variable {cs : List Char} {n k : Nat} {s t b : State} {found : Option Entry}

/-- A turn leads on in the file. -/
theorem reaches_levelTurn (cs : List Char) (n : Nat) (s : State) :
    s.Reaches (levelTurn cs n s).next :=
  reaches_turn (reaches_body cs n) (reaches_value cs n) s

/-- So do all turns of a level. -/
theorem reaches_levelEntries (cs : List Char) (n : Nat) (s : State) :
    s.Reaches (levelEntries cs n s).next :=
  (entriesWith_upholds (I := .behind s) (body_upholds cs n)
    (valueWith_upholds (array_upholds cs n)) .refl).1

/-- So does the brace that closes a class. -/
theorem reaches_closing (s : State) : s.Reaches (closing s).next :=
  (closing_upholds (I := .behind s) .refl).1

/-- The entries of a level are that of its first turn, if it has one, and those of the other
turns. -/
theorem levelEntries_of_some (h : (levelTurn cs n s).value = some found) :
    (levelEntries cs n s).value =
        found.toList ++ (levelEntries cs n (levelTurn cs n s).next).value ∧
      (levelEntries cs n s).next = (levelEntries cs n (levelTurn cs n s).next).next := by
  have hlt : (levelTurn cs n s).next.rest.length < s.rest.length :=
    (turn_progress _ _ s).resolve_left (by rw [show (turn _ _ s).value = _ from h]; exact nofun)
  obtain ⟨hvalue, hnext⟩ := Parse.many_of_some h hlt
  have hentries (s : State) : (levelEntries cs n s).value =
      (many (levelTurn cs n) s).value.filterMap id := rfl
  rw [hentries, hentries, hvalue]
  exact ⟨by cases found <;> rfl, hnext⟩

/-- A class is read if its brace has a level left, whatever is behind the brace. -/
theorem OpensClass.turn (h : OpensClass s b) (cs : List Char) (n : Nat) :
    ∃ c : Class, (levelTurn cs (n + 1) s).value = some (some (.nested c)) ∧
      c.entries = (levelEntries cs n (Parse.advance b).next).value ∧
      c.span.start ≤ s.token.span.start ∧
      (levelTurn cs (n + 1) s).next =
        (closing (levelEntries cs n (Parse.advance b).next).next).next := by
  have hbody : Runs (body cs (n + 1)) b (levelEntries cs n (Parse.advance b).next).value
      (levelEntries cs n (Parse.advance b).next).next := ⟨rfl, rfl⟩
  obtain ⟨text, base, hclass⟩ := h.runs hbody
  have hentry := runs_entry (valueWith cs (array cs (n + 1))) h.named h.isClass hclass
  obtain ⟨hend, hclose, hstray⟩ := starts_of_isName h.named
  obtain ⟨hvalue, hnext⟩ := turn_of_ok hend hclose hstray hentry.1
  exact ⟨_, hvalue, rfl, Nat.min_le_left _ _, hnext.trans hentry.2⟩

/-- What the parser comes to is reached. -/
theorem Comes.reaches (h : Comes cs n s k t) : s.Reaches t := by
  induction h with
  | here => exact .refl
  | next _ _ ih => exact (reaches_levelTurn cs _ _).trans ih
  | @inside n k s b t h _ ih =>
    exact (Parse.reaches_advance s).trans (h.reaches.trans ((Parse.reaches_advance b).trans ih))

/-- An entry that the parser comes to is read before the entries end. -/
theorem Comes.reaches_end (h : Comes cs n s k t) (ht : (levelTurn cs k t).value = some found) :
    (levelTurn cs k t).next.Reaches (levelEntries cs n s).next := by
  induction h with
  | here =>
    rw [(levelEntries_of_some ht).2]
    exact reaches_levelEntries _ _ _
  | next hfound _ ih =>
    rw [(levelEntries_of_some hfound).2]
    exact ih ht
  | @inside n k s b t h _ ih =>
    obtain ⟨c, hclass, -, -, hnext⟩ := h.turn cs n
    rw [(levelEntries_of_some hclass).2, hnext]
    exact (ih ht).trans ((reaches_closing _).trans (reaches_levelEntries _ _ _))

/-- An entry with a brace that nests too deeply is reported and left out. -/
theorem Brace.turn (h : Brace cs n s 0 b) :
    (levelTurn cs n s).value = some none ∧ (levelTurn cs n s).next =
      (synchronize s (Parse.report (tooDeepAt b) b).next).next := by
  obtain ⟨hvalue, hnext⟩ := h.fails
  have hname : s.token.isName = true := by
    cases h with
    | ofClass h => exact h.named
    | ofArray h _ => exact h.named
  obtain ⟨hend, hclose, hstray⟩ := starts_of_isName hname
  have hturn := turn_of_error hend hclose hstray hvalue
  rwa [hnext] at hturn

end Turns

/-! ## Places without entries -/

/-- No entry starts between the two offsets, also none inside of a class. -/
def Clear (low high : Nat) (es : List Entry) : Prop :=
  ∀ fs, Siblings es fs → ∀ e ∈ fs, e.span.start < low ∨ high ≤ e.span.start

section Clear

variable {source : String} {low high a b : Nat} {es fs gs : List Entry}

/-- Lists of siblings are found in one part of a file or in the other, or are the file itself. -/
theorem Siblings.of_append (h : Siblings (es ++ fs) gs) :
    gs = es ++ fs ∨ Siblings es gs ∨ Siblings fs gs := by
  induction h with
  | file => exact .inl rfl
  | inside _ hc ih =>
    right
    rcases ih with rfl | hes | hfs
    · exact (List.mem_append.1 hc).imp (Siblings.file.inside ·) (Siblings.file.inside ·)
    · exact .inl (hes.inside hc)
    · exact .inr (hfs.inside hc)

/-- In a class they are found among its entries. -/
theorem Siblings.of_nested {c : Class} (h : Siblings [.nested c] gs) :
    gs = [.nested c] ∨ Siblings c.entries gs := by
  induction h with
  | file => exact .inl rfl
  | inside _ hc ih =>
    right
    rcases ih with rfl | hes
    · cases List.mem_singleton.1 hc
      exact .file
    · exact hes.inside hc

/-- Two parts that keep clear of a stretch do so together. -/
theorem Clear.append (h : Clear low high es) (h' : Clear low high fs) :
    Clear low high (es ++ fs) := by
  intro gs hgs e he
  rcases hgs.of_append with rfl | hes | hfs
  · exact (List.mem_append.1 he).elim (h es .file e) (h' fs .file e)
  · exact h gs hes e he
  · exact h' gs hfs e he

/-- A class does so if it starts before the stretch and its entries keep clear of it. -/
theorem Clear.nested {c : Class} (hstart : c.span.start < low) (h : Clear low high c.entries) :
    Clear low high [.nested c] := by
  intro gs hgs e he
  rcases hgs.of_nested with rfl | hinside
  · cases List.mem_singleton.1 he
    exact .inl hstart
  · exact h gs hinside e he

/-- Siblings are in order wherever they are. -/
theorem InOrder.siblings (h : InOrder source a b es) (hfs : Siblings es fs) :
    ∃ c d, a ≤ c ∧ d ≤ b ∧ InOrder source c d fs := by
  induction hfs with
  | file => exact ⟨a, b, Nat.le_refl _, Nat.le_refl _, h⟩
  | inside _ hc ih =>
    obtain ⟨c, d, hle, hle', horder⟩ := ih
    have hbounds := horder.bounds _ hc
    exact ⟨_, _, Nat.le_trans hle hbounds.1, Nat.le_trans hbounds.2 hle', horder.inside hc⟩

/-- Entries that end before a stretch keep clear of it. -/
theorem InOrder.clear_before (h : InOrder source a b es) (hle : b ≤ low) : Clear low high es := by
  intro fs hfs e he
  obtain ⟨c, d, -, hd, horder⟩ := h.siblings hfs
  have hbounds := horder.bounds e he
  have hlt := (horder.valid e he).1
  exact .inl (by omega)

/-- So do entries that start behind it. -/
theorem InOrder.clear_behind (h : InOrder source a b es) (hle : high ≤ a) : Clear low high es := by
  intro fs hfs e he
  obtain ⟨c, d, hc, -, horder⟩ := h.siblings hfs
  have hbounds := horder.bounds e he
  exact .inr (by omega)

end Clear

section Dropped

variable {source : String} {n k : Nat} {s t : State} {found : Option Entry}

/-- The entries of a level are in order. -/
theorem levelEntries_inOrder (n : Nat) (hs : Sited source s) :
    InOrder source s.token.span.start (levelEntries source.toList n s).next.token.span.start
      (levelEntries source.toList n s).value :=
  entriesWith_inOrder (reaches_body _ _) (reaches_value _ _) (body_encloses source n) hs

/-- The entry of one turn is between the tokens around it. -/
theorem levelTurn_inOrder (hs : Sited source s)
    (h : (levelTurn source.toList n s).value = some found) :
    InOrder source s.token.span.start (levelTurn source.toList n s).next.token.span.start
      found.toList :=
  turn_inOrder (reaches_body _ _) (reaches_value _ _) (body_encloses source n) hs h

/-- Where a turn gives no entry, none of those that are read starts in what it passes over. -/
theorem Comes.clear (h : Comes source.toList n s k t) (hs : Sited source s)
    (hdropped : (levelTurn source.toList k t).value = some none) :
    Clear t.token.span.start (levelTurn source.toList k t).next.token.span.start
      (levelEntries source.toList n s).value := by
  induction h with
  | @here n s =>
    rw [(levelEntries_of_some hdropped).1]
    exact (levelEntries_inOrder n (hs.mono (reaches_levelTurn _ n s))).clear_behind (Nat.le_refl _)
  | @next n k s t found hfound hmore ih =>
    have hnext := hs.mono (reaches_levelTurn source.toList n s)
    rw [(levelEntries_of_some hfound).1]
    exact ((levelTurn_inOrder hs hfound).clear_before (hnext.spaced.le hmore.reaches)).append
      (ih hnext hdropped)
  | @inside n k s b t hopen hmore ih =>
    obtain ⟨c, hclass, hentries, hstart, hnext⟩ := hopen.turn source.toList n
    have hreaches := hopen.reaches.trans (Parse.reaches_advance b)
    have hinside := hs.advance.mono hreaches
    have hturn := hinside.mono (hmore.reaches.trans (reaches_levelTurn source.toList k t))
    have hbehind := (hmore.reaches_end hdropped).trans (reaches_closing _)
    rw [(levelEntries_of_some hclass).1]
    -- The class itself starts before the turn, and what is read behind the class is behind it.
    refine Clear.append (Clear.nested ?_ (hentries ▸ ih hinside hdropped)) ?_
    · have hlt := hs.token_lt (starts_of_isName hopen.named).1
      have hle := hs.token_stop_le (hreaches.trans hmore.reaches)
      omega
    · have hclosed := levelEntries_inOrder (n + 1) (hturn.mono hbehind)
      rw [← hnext] at hclosed
      refine hclosed.clear_behind ?_
      rw [hnext]
      exact hturn.spaced.le hbehind

end Dropped

/-! ## Files -/

section Files

variable {cs : List Char} {s t : State} {k : Nat} {found : Option Entry}

/-- What the parser comes to in a file is reached. -/
theorem InFile.reaches (h : InFile cs s k t) : s.Reaches t := by
  induction h with
  | here h => exact h.reaches
  | stray _ _ ih =>
    exact (reaches_levelEntries cs _ _).trans ((reaches_pastStray _).trans ih)

/-- What the parser comes to is read before the file ends. -/
theorem InFile.reaches_end (h : InFile cs s k t) (ht : (levelTurn cs k t).value = some found) :
    (levelTurn cs k t).next.Reaches (allEntries cs s).next := by
  induction h with
  | @here s t k h =>
    have hstray : (topEntries cs s).next.Reaches (allEntries cs s).next := by
      rcases entriesWith_end _ _ s with hend | hclose
      · rw [(allEntries_of_end hend).2]
        exact .refl
      · rw [(allEntries_of_stray hclose).2]
        exact (reaches_pastStray _).trans (reaches_allEntries cs _)
    exact (h.reaches_end ht).trans hstray
  | stray h _ ih =>
    rw [(allEntries_of_stray h).2]
    exact ih ht

/-- Where a turn gives no entry, none of the file starts in what it passes over. -/
theorem InFile.clear {source : String} (h : InFile source.toList s k t) (hs : Sited source s)
    (hdropped : (levelTurn source.toList k t).value = some none) :
    Clear t.token.span.start (levelTurn source.toList k t).next.token.span.start
      (allEntries source.toList s).value := by
  -- What was dropped is among the entries up to the next stray brace, or behind such a brace.
  induction h with
  | @here s t k h =>
    have hinside := h.clear hs hdropped
    rcases entriesWith_end _ _ s with hend | hclose
    · rwa [(allEntries_of_end hend).1]
    · rw [(allEntries_of_stray hclose).1]
      have htop := hs.mono (reaches_levelEntries source.toList Parse.maxNesting s)
      have hturn := hs.mono (h.reaches.trans (reaches_levelTurn source.toList k t))
      have hbehind := (h.reaches_end hdropped).trans (reaches_pastStray _)
      exact hinside.append ((allEntries_inOrder (htop.mono (reaches_pastStray _))).clear_behind
        (hturn.spaced.le hbehind))
  | @stray s t k h hmore ih =>
    have htop := hs.mono (reaches_levelEntries source.toList Parse.maxNesting s)
    have hpast := htop.mono (reaches_pastStray _)
    rw [(allEntries_of_stray h).1]
    refine Clear.append ?_ (ih hpast hdropped)
    exact (topEntries_inOrder hs).clear_before
      (htop.spaced.le ((reaches_pastStray _).trans hmore.reaches))

end Files

end Config

end Sqf
