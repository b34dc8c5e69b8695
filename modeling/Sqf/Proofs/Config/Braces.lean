import Sqf.Proofs.Config.Reads
import Sqf.Proofs.Parse.Progress

/-!
# The braces that values take

Braces are counted over the tokens that a parser reads (`Reads`). A parser is `Level` if it
closes all the braces that it opens and no other one. A value may open braces that it does not
close: raw text takes openers and never closers. If it is read to its end, then it is level
unless some raw text in it has an opening brace (`Climbs`, `Value.holdsBrace`).
-/

namespace Sqf.Config

open Parse (State state kind advance failUnexpected expect commaList)

/-! ## Depth -/

/-- How many braces are open behind a token, with `n` open before it. A closer needs one. -/
def depthBehind? (n : Nat) : Kind → Option Nat
  | .openCurly => some (n + 1)
  | .closeCurly => if n = 0 then none else some (n - 1)
  | _ => some n

/-- How many braces are open behind tokens of these kinds, with `n` open before them. There is
no such number if one closes that is not open. -/
def depth? (n : Nat) (kinds : List Kind) : Option Nat := kinds.foldlM depthBehind? n

/-- Each brace that is opened is closed, and no other one. -/
def Balanced (kinds : List Kind) : Prop := depth? 0 kinds = some 0

instance (kinds : List Kind) : Decidable (Balanced kinds) :=
  inferInstanceAs (Decidable (_ = _))

theorem depth?_cons (n : Nat) (kind : Kind) (kinds : List Kind) :
    depth? n (kind :: kinds) = (depthBehind? n kind).bind fun m => depth? m kinds := rfl

section Depth

variable {m n k : Nat} {ks ls : List Kind} {ts : List Token}

/-- The depth behind a text is where the text behind it starts. -/
theorem depth?_append (h : depth? m ks = some n) : depth? m (ks ++ ls) = depth? n ls := by
  unfold depth? at h ⊢
  rw [List.foldlM_append, h]
  rfl

/-- Only braces change the depth. -/
theorem depthBehind?_other {kind : Kind} (hopen : kind ≠ .openCurly)
    (hclose : kind ≠ .closeCurly) (n : Nat) : depthBehind? n kind = some n := by
  cases kind <;> first | rfl | contradiction

/-- Braces that were open before stay open. -/
theorem depth?_add (h : depth? m ks = some n) (k : Nat) : depth? (k + m) ks = some (k + n) := by
  induction ks generalizing m with
  | nil =>
    cases h
    rfl
  | cons kind ks ih =>
    obtain ⟨next, hnext, hks⟩ := Option.bind_eq_some_iff.1 h
    -- A brace that may be closed at a depth may be closed at any greater one.
    have hstep : depthBehind? (k + m) kind = some (k + next) := by
      by_cases hopen : kind = .openCurly
      · subst hopen
        cases hnext
        rfl
      by_cases hclose : kind = .closeCurly
      · subst hclose
        have hne : m ≠ 0 := by
          rintro rfl
          cases hnext
        rw [depthBehind?, if_neg hne] at hnext
        rw [depthBehind?, if_neg (by omega), ← Option.some.inj hnext]
        exact congrArg some (by omega)
      · rw [depthBehind?_other hopen hclose] at hnext ⊢
        rw [Option.some.inj hnext]
    rw [depth?_cons, hstep]
    exact ih hks

/-- The count from which passing over tokens begins is the depth, as long as there is one. -/
theorem openBraces_of_depth (h : depth? 0 (ts.map Token.kind) = some k) : openBraces ts = k := by
  -- Both count the same way, but the recovery takes a closing brace at depth zero for none.
  suffices hfrom : ∀ m, depth? m (ts.map Token.kind) = some k →
      ts.foldl (fun n t => match t.kind with
        | .openCurly => n + 1
        | .closeCurly => n - 1
        | _ => n) m = k from hfrom 0 h
  clear h
  induction ts with
  | nil =>
    intro m h
    exact Option.some.inj h
  | cons t ts ih =>
    intro m h
    obtain ⟨next, hnext, hts⟩ := Option.bind_eq_some_iff.1 h
    have hstep : (match t.kind with
        | .openCurly => m + 1
        | .closeCurly => m - 1
        | _ => m) = next := by
      unfold depthBehind? at hnext
      split at hnext
      · exact Option.some.inj hnext
      · split at hnext
        · cases hnext
        · exact Option.some.inj hnext
      · exact Option.some.inj hnext
    rw [List.foldl_cons, hstep]
    exact ih next hts

/-- Passing over tokens closes the braces that are open, or reaches the end. -/
theorem depth?_entryLength (hkinds : ∀ t ∈ ts, t.kind ≠ .endOfInput) (k : Nat) :
    ∃ n, depth? k ((ts.take (entryLength k ts)).map Token.kind) = some n ∧
      (n = 0 ∨ ts.drop (entryLength k ts) = []) := by
  induction ts generalizing k with
  | nil => exact ⟨k, rfl, .inr rfl⟩
  | cons t ts ih =>
    obtain ⟨hend, hts⟩ := List.forall_mem_cons.1 hkinds
    -- What the rest does from the depth behind `t` on, with `t` before it.
    have hcons : ∀ next, depthBehind? k t.kind = some next →
        entryLength k (t :: ts) = entryLength next ts + 1 →
        ∃ n, depth? k (((t :: ts).take (entryLength k (t :: ts))).map Token.kind) = some n ∧
          (n = 0 ∨ (t :: ts).drop (entryLength k (t :: ts)) = []) := by
      intro next hnext hlength
      obtain ⟨n, hn, hstop⟩ := ih hts next
      refine ⟨n, ?_, ?_⟩
      · rw [hlength, List.take_succ_cons, List.map_cons, depth?_cons, hnext]
        exact hn
      · rwa [hlength, List.drop_succ_cons]
    by_cases hopen : t.kind = .openCurly
    · exact hcons (k + 1) (by rw [hopen]; rfl) (by rw [entryLength, hopen])
    by_cases hclose : t.kind = .closeCurly
    · by_cases hk : k = 0
      · exact ⟨0, by simp [entryLength, hclose, hk, depth?], .inl rfl⟩
      · exact hcons (k - 1) (by rw [hclose, depthBehind?, if_neg hk])
          (by simp [entryLength, hclose, hk])
    have hother := depthBehind?_other hopen hclose
    by_cases hsemicolon : t.kind = .semicolon
    · by_cases hk : k = 0
      · exact ⟨0, by simp [entryLength, hsemicolon, hk, depthBehind?, depth?], .inl rfl⟩
      · exact hcons k (hother k) (by simp [entryLength, hsemicolon, hk])
    · refine hcons k (hother k) ?_
      rw [entryLength]
      split <;> first | contradiction | rfl

end Depth

/-! ## What was read -/

/-- Between the two states tokens were read that leave `k` braces open and close no other one. -/
def Reads (k : Nat) (s t : State) : Prop :=
  ∃ front, s.rest = front ++ t.rest ∧ depth? 0 (front.map Token.kind) = some k

section Reads

variable {j k : Nat} {s t u : State}

theorem Reads.of_rest_eq (h : t.rest = s.rest) : Reads 0 s t :=
  ⟨[], h.symm, rfl⟩

theorem Reads.refl (s : State) : Reads 0 s s := .of_rest_eq rfl

/-- What is opened by one part and then by another adds up. -/
theorem Reads.trans (h : Reads j s t) (h' : Reads k t u) : Reads (j + k) s u := by
  obtain ⟨front, hfront, hdepth⟩ := h
  obtain ⟨back, hback, hdepth'⟩ := h'
  refine ⟨front ++ back, by rw [hfront, hback, List.append_assoc], ?_⟩
  rw [List.map_append, depth?_append hdepth]
  exact depth?_add hdepth' j

/-- Behind the end of input nothing is read any more. -/
theorem Reads.rest_eq_nil (h : Reads k s t) (hs : s.rest = []) : t.rest = [] := by
  obtain ⟨front, hfront, _⟩ := h
  rw [hs, List.nil_eq, List.append_eq_nil_iff] at hfront
  exact hfront.2

/-- An opening brace is read. -/
theorem Reads.opener (h : s.kind = .openCurly) : Reads 1 s (Parse.advance s).next := by
  obtain ⟨ts, hts⟩ := State.exists_cons (s := s) (by rw [h]; decide)
  have hkind : s.token.kind = .openCurly := h
  refine ⟨[s.token], by rw [Parse.next_advance hts, hts]; rfl, ?_⟩
  rw [List.map_singleton, hkind]
  rfl

/-- A brace that was opened is closed. -/
theorem Reads.closer (h : Reads (k + 1) s t) (hkind : t.kind = .closeCurly) :
    Reads k s (Parse.advance t).next := by
  obtain ⟨front, hfront, hdepth⟩ := h
  obtain ⟨ts, hts⟩ := State.exists_cons (s := t) (by rw [hkind]; decide)
  have htoken : t.token.kind = .closeCurly := hkind
  refine ⟨front ++ [t.token], by rw [Parse.next_advance hts, hfront, hts]; simp, ?_⟩
  rw [List.map_append, depth?_append hdepth, List.map_singleton, htoken]
  rfl

/-- Any other token is read, or the end of input is met. -/
theorem Reads.other (hopen : s.kind ≠ .openCurly) (hclose : s.kind ≠ .closeCurly) :
    Reads 0 s (Parse.advance s).next := by
  cases hrest : s.rest with
  | nil => exact .of_rest_eq (by rw [Parse.next_advance_eq, hrest]; rfl)
  | cons t ts =>
    rw [State.kind_cons hrest] at hopen hclose
    refine ⟨[t], by rw [Parse.next_advance hrest, hrest]; rfl, ?_⟩
    rw [List.map_singleton, depth?_cons, depthBehind?_other hopen hclose]
    rfl

end Reads

/-! ## Parsers that read no braces -/

/-- The parser reads no brace, or closes those that it opens. -/
def Level (x : Attempt α) (s : State) : Prop := Reads 0 s (x.run s).next

section Level

variable {s : State}

theorem Level.pure (a : α) : Level (Pure.pure a) s := Reads.refl s

theorem Level.failUnexpected (expectation : String) :
    Level (Parse.failUnexpected expectation : Attempt α) s := Reads.refl s

/-- Two parts that are level one after the other. -/
theorem Level.bind {x : Attempt α} {f : α → Attempt β} (h : Level x s)
    (hf : ∀ a, (x.run s).value = .ok a → Level (f a) (x.run s).next) : Level (x >>= f) s := by
  unfold Level at h hf ⊢
  cases hvalue : (x.run s).value with
  | error d =>
    rw [(Attempt.bind_error hvalue).2]
    exact h
  | ok a =>
    rw [(Attempt.bind_ok hvalue).2]
    exact h.trans (hf a hvalue)

/-- A token that is no brace is read. -/
theorem Level.advance_bind {f : Token → Attempt β} (hopen : s.kind ≠ .openCurly)
    (hclose : s.kind ≠ .closeCurly) (hf : Level (f s.token) (Parse.advance s).next) :
    Level (liftM Parse.advance >>= f) s := by
  unfold Level at hf ⊢
  rw [Attempt.next_lift_bind, Parse.value_advance]
  exact (Reads.other hopen hclose).trans hf

/-- Reading a token that is no brace. -/
theorem Level.advance (hopen : s.kind ≠ .openCurly) (hclose : s.kind ≠ .closeCurly) :
    Level (liftM Parse.advance : Attempt Token) s :=
  Reads.other hopen hclose

/-- A token that is expected, if it is no brace. -/
theorem level_expect {kind : Kind} (hopen : kind ≠ .openCurly) (hclose : kind ≠ .closeCurly)
    (expectation : String) : Level (expect kind expectation) s := by
  show Level (if s.kind = kind then liftM Parse.advance else Parse.failUnexpected expectation) s
  split
  · next hkind =>
    subst hkind
    exact Level.advance hopen hclose
  · exact Level.failUnexpected expectation

/-- A number is no brace. -/
theorem level_number (negative : Bool) : Level (number negative) s := by
  refine (level_expect (by decide) (by decide) "a number").bind fun t _ => ?_
  split
  · exact Level.pure _
  · exact Reads.refl _

/-- Names are no braces. -/
theorem kind_of_isName {t : Token} (h : t.isName = true) :
    t.kind ≠ .openCurly ∧ t.kind ≠ .closeCurly := by
  unfold Token.isName at h
  constructor <;> (intro hkind; rw [hkind] at h; cases h)

/-- Nor is a name. -/
theorem level_name (expectation : String) : Level (name expectation) s := by
  show Level (if s.token.isName then liftM Parse.advance else Parse.failUnexpected expectation) s
  split
  · next hname =>
    obtain ⟨hopen, hclose⟩ := kind_of_isName hname
    exact Level.advance hopen hclose
  · exact Level.failUnexpected expectation

/-- Square brackets are not counted. -/
theorem level_brackets : Level brackets s := by
  show Level (if s.kind = .openBracket then _ else _) s
  split
  · next hkind =>
    refine Level.advance_bind (by rw [hkind]; decide) (by rw [hkind]; decide) ?_
    exact (level_expect (by decide) (by decide) _).bind fun _ _ => Level.pure _
  · exact Level.pure _

/-- A sign is no brace. -/
theorem level_assignment (isArray : Bool) : Level (assignment isArray) s := by
  show Level (if s.kind = .assignment || (s.kind = .plusEquals && isArray) then _ else _) s
  split
  · next hsign =>
    have hkind : s.kind = .assignment ∨ s.kind = .plusEquals := by
      simp only [Bool.or_eq_true, Bool.and_eq_true, decide_eq_true_eq] at hsign
      exact hsign.imp id And.left
    refine Level.advance_bind ?_ ?_ (Level.pure _) <;>
      rcases hkind with hkind | hkind <;> rw [hkind] <;> decide
  · exact Level.failUnexpected _

/-- Nor is the parent of a class. -/
theorem level_parent : Level parent s := by
  show Level (if s.kind = .colon then _ else _) s
  split
  · next hkind =>
    refine Level.advance_bind (by rw [hkind]; decide) (by rw [hkind]; decide) ?_
    exact (level_name _).bind fun _ _ => Level.pure _
  · exact Level.pure _

/-- Nor is a semicolon. Where it is missing nothing is read. -/
theorem reads_terminator (stop : Nat) (s : State) : Reads 0 s (terminator stop s).next := by
  show Reads 0 s ((if s.kind = .semicolon then _ else _ : Parse Unit) s).next
  split
  · next hkind => exact Reads.other (by rw [hkind]; decide) (by rw [hkind]; decide)
  · exact Reads.refl s

end Level

/-! ## Raw text -/

mutual

/-- Some raw text in the value has an opening brace. -/
def Value.holdsBrace : Value → Bool
  | .word text => text.toList.contains '\x7b'
  | .array items => anyHoldsBrace items
  | .number _ => false
  | .string _ => false

def anyHoldsBrace : List Value → Bool
  | [] => false
  | v :: vs => v.holdsBrace || anyHoldsBrace vs

end

/-- The tokens that are left are the last ones of the source. -/
def Within (source : List Char) (s : State) : Prop :=
  s.rest <:+ Piece.tokens 0 (pieces source)

section Words

variable {source : List Char} {s : State}

/-- Whatever is read, the tokens stay those of the source. -/
theorem Within.next (h : Within source s) (p : Parse α) : Within source (p s).next :=
  (p s).suffix.trans h

/-- The end of input is none of the tokens that are left. -/
theorem Within.kind_ne (h : Within source s) : ∀ t ∈ s.rest, t.kind ≠ .endOfInput := by
  intro t ht
  obtain ⟨front, p, back, hpieces, htoken⟩ := Piece.exists_of_mem_tokens (h.mem ht)
  have hsource : pieces (String.ofList source).toList = front ++ p :: back := by
    rw [String.toList_ofList, hpieces]
  exact (spells_of_piece hsource htoken).1

/-- At the end of the input no token is left. -/
theorem Within.rest_eq_nil (h : Within source s) (hkind : s.kind = .endOfInput) : s.rest = [] := by
  cases hrest : s.rest with
  | nil => rfl
  | cons t ts =>
    rw [State.kind_cons hrest] at hkind
    exact absurd hkind (h.kind_ne t (by rw [hrest]; exact List.mem_cons_self))

/-- What is no blank is not trimmed. -/
theorem mem_trim {c : Char} {cs : List Char} (h : c ∈ cs) (hc : Text.isBlank c = false) :
    c ∈ Text.trim cs := by
  have hleft : c ∈ cs.dropWhile Text.isBlank := by
    rw [← List.takeWhile_append_dropWhile (p := Text.isBlank) (l := cs), List.mem_append] at h
    rcases h with h | h
    · rw [List.mem_takeWhile_imp h] at hc
      cases hc
    · exact h
  unfold Text.trim
  generalize cs.dropWhile Text.isBlank = ds at hleft
  -- From the right end a character is kept if it is no blank or if something behind it is kept.
  induction ds with
  | nil => cases hleft
  | cons d ds ih =>
    rw [Text.trimRight]
    rcases List.mem_cons.1 hleft with rfl | hmem
    · cases Text.trimRight ds with
      | nil => simp [hc]
      | cons => exact List.mem_cons_self
    · have hmore := ih hmem
      cases htrim : Text.trimRight ds with
      | nil =>
        rw [htrim] at hmore
        cases hmore
      | cons e es =>
        rw [htrim] at hmore
        exact List.mem_cons_of_mem _ hmore

/-- Tokens without a closing brace leave open the braces among them. -/
theorem depth?_of_no_closer {ks : List Kind} (h : .closeCurly ∉ ks) (n : Nat) :
    depth? n ks = some (n + ks.count .openCurly) := by
  induction ks generalizing n with
  | nil => rfl
  | cons k ks ih =>
    simp only [List.mem_cons, not_or] at h
    rw [depth?_cons]
    by_cases hopen : k = .openCurly
    · subst hopen
      show depth? (n + 1) ks = _
      rw [ih h.2, List.count_cons_self]
      exact congrArg some (by omega)
    · rw [depthBehind?_other hopen (Ne.symm h.1), List.count_cons_of_ne hopen]
      exact ih h.2 n

/-- Raw text takes opening braces and no closing ones. -/
theorem reads_word (h : Within source s) :
    ∃ k, Reads k s (word source s).next ∧
      ((word source s).value.holdsBrace = false → k = 0) := by
  generalize hread : s.rest.takeWhile (fun t => !endsWord t.kind) = read
  have hsplit : read ++ s.rest.drop read.length = s.rest := by
    rw [← hread]
    exact (List.prefix_iff_eq_append.1 (List.takeWhile_prefix _))
  have hnext : (word source s).next = s.drop read.length := by
    rw [← hread]
    rfl
  have hcloser : .closeCurly ∉ read.map Token.kind := by
    rw [List.mem_map]
    rintro ⟨t, ht, hclose⟩
    rw [← hread] at ht
    have hends := List.mem_takeWhile_imp ht
    simp [hclose, endsWord] at hends
  have hdepth := depth?_of_no_closer hcloser 0
  rw [Nat.zero_add] at hdepth
  refine ⟨_, ⟨read, by rw [hnext]; exact hsplit.symm, hdepth⟩, fun hnone => ?_⟩
  by_contra hcount
  obtain ⟨t, ht, hopen⟩ := List.mem_map.1 (List.count_pos_iff.1 (Nat.pos_of_ne_zero hcount))
  -- The text over the tokens has the brace in it, and is the value but for blanks at its ends.
  obtain ⟨first, others, hcons⟩ := List.exists_cons_of_ne_nil (List.ne_nil_of_mem ht)
  obtain ⟨front, hfront⟩ := h
  have htoken : s.token = first := State.token_cons (hsplit.symm.trans (by rw [hcons]; rfl))
  obtain ⟨before, last, hlast⟩ := List.eq_nil_or_concat read |>.resolve_left (by simp [hcons])
  rw [List.concat_eq_append] at hlast
  have hstretch : ∃ text, Text.slice? first.span.start last.span.stop source = some text ∧
      ∀ t ∈ read, t.kind = .openCurly → '\x7b' ∈ text := by
    have hall : Piece.tokens 0 (pieces source) =
        front ++ (before ++ [last]) ++ s.rest.drop read.length := by
      rw [← hlast, List.append_assoc, hsplit, hfront]
    rw [hlast]
    refine exists_stretch hall ?_
    rw [← hlast, hcons]
    rfl
  obtain ⟨text, hslice, hbrace⟩ := hstretch
  have htake : s.rest.take read.length = read :=
    (List.prefix_iff_eq_take.1 ⟨_, hsplit⟩).symm
  have hvalue : (word source s).value = .word (.ofList (Text.trim text)) := by
    show Value.word (.ofList (Text.trim ((Text.slice? s.token.span.start
      (word source s).next.lastEnd source).getD []))) = _
    rw [hnext, State.drop, htake, hlast, List.getLast?_concat, htoken, hslice]
    rfl
  rw [hvalue, Value.holdsBrace, String.toList_ofList] at hnone
  have hmem := mem_trim (hbrace t ht hopen) rfl
  rw [List.contains_iff_mem.2 hmem] at hnone
  cases hnone

end Words

/-! ## Values -/

/-- The parser closes no brace that it did not open. If it gives a value that is `free`, it
closes all that it opens. -/
def Climbs (x : Attempt α) (free : α → Prop) (s : State) : Prop :=
  ∃ k, Reads k s (x.run s).next ∧ ∀ a, (x.run s).value = .ok a → free a → k = 0

section Values

variable {source : List Char} {s : State} {free : α → Prop} {free' : β → Prop}

/-- A parser that is level climbs nowhere. -/
theorem Level.climbs {x : Attempt α} (h : Level x s) : Climbs x free s :=
  ⟨0, h, fun _ _ _ => rfl⟩

/-- What is given in the end has to show that what was given on the way is `free`. -/
theorem Climbs.bind {x : Attempt α} {f : α → Attempt β} (h : Climbs x free s)
    (hf : ∀ a, (x.run s).value = .ok a → Climbs (f a) free' (x.run s).next ∧
      Attempt.Ensures (f a) (fun b _ => free' b → free a) (x.run s).next) :
    Climbs (x >>= f) free' s := by
  obtain ⟨j, hj, hzero⟩ := h
  cases hvalue : (x.run s).value with
  | error d =>
    obtain ⟨herror, hnext⟩ := Attempt.bind_error (f := f) hvalue
    refine ⟨j, by rwa [hnext], fun b hb => ?_⟩
    rw [herror] at hb
    cases hb
  | ok a =>
    obtain ⟨⟨k, hk, hzero'⟩, hensures⟩ := hf a hvalue
    obtain ⟨hok, hnext⟩ := Attempt.bind_ok (f := f) hvalue
    refine ⟨j + k, by rw [hnext]; exact hj.trans hk, fun b hb hfree => ?_⟩
    rw [hok] at hb
    rw [hzero a hvalue (hensures b hb hfree), hzero' b hb hfree]

theorem Climbs.kind_bind {f : Kind → Attempt β} (h : Climbs (f s.kind) free' s) :
    Climbs (liftM kind >>= f) free' s := h

/-- It may stand in front of one that climbs. -/
theorem Level.bind_climbs {x : Attempt α} {f : α → Attempt β} (h : Level x s)
    (hf : ∀ a, (x.run s).value = .ok a → Climbs (f a) free' (x.run s).next) :
    Climbs (x >>= f) free' s := by
  have hx : Climbs x (fun _ => True) s := h.climbs
  exact hx.bind fun a ha => ⟨hf a ha, fun _ _ _ => trivial⟩

/-- A value does what the parser does that reads arrays. -/
theorem climbs_valueWith {array : Attempt Value} (h : Within source s)
    (harray : s.kind = .openCurly → Climbs array (·.holdsBrace = false) s) :
    Climbs (valueWith source array) (·.holdsBrace = false) s := by
  unfold valueWith
  refine Climbs.kind_bind ?_
  -- All values but arrays and raw text are single tokens or numbers.
  split
  · next hkind =>
    exact (Level.advance_bind (by rw [hkind]; decide) (by rw [hkind]; decide)
      (Level.pure (Value.string s.token.value))).climbs
  · exact (level_number _).climbs
  · next hkind =>
    exact (Level.advance_bind (by rw [hkind]; decide) (by rw [hkind]; decide)
      (level_number _)).climbs
  · next hkind => exact harray hkind
  · split
    · exact (Level.failUnexpected _).climbs
    · obtain ⟨k, hk, hzero⟩ := reads_word h
      refine ⟨k, hk, fun v hv hfree => hzero ?_⟩
      rw [show v = (word source s).value from (Except.ok.inj hv).symm] at hfree
      exact hfree

/-- If no value holds a brace, neither the first one nor any other does. -/
theorem anyHoldsBrace_cons {v : Value} {vs : List Value}
    (h : anyHoldsBrace (v :: vs) = false) : v.holdsBrace = false ∧ anyHoldsBrace vs = false := by
  rwa [anyHoldsBrace, Bool.or_eq_false_iff] at h

/-- The items of an array climb as far as their raw texts do. -/
theorem climbs_items {item : Attempt Value} (h : Within source s)
    (hitem : ∀ t, Within source t → Climbs item (·.holdsBrace = false) t) :
    Climbs (commaList .closeCurly "`,` or `\x7d`" item) (anyHoldsBrace · = false) s := by
  -- Strong induction on what is left, since an item is read before the comma behind it.
  generalize hlength : s.rest.length = length
  induction length using Nat.strong_induction_on generalizing s with
  | _ length ih =>
    subst hlength
    rw [Parse.commaList_eq (by decide)]
    refine Climbs.kind_bind ?_
    split
    · exact (Level.pure _).climbs
    refine (hitem s h).bind fun v hv => ⟨?_, ?_⟩
    · generalize hnext : (item.run s).next = t
      have ht : Within source t := hnext ▸ h.next item.run
      have hle : t.rest.length ≤ s.rest.length := hnext ▸ Parse.length_next_le item.run s
      refine Climbs.kind_bind ?_
      split
      · next hcomma =>
        have hlt := Parse.length_advance (s := t) (by rw [hcomma]; decide)
        refine (Level.advance (by rw [hcomma]; decide) (by rw [hcomma]; decide)).bind_climbs
          fun _ _ => ?_
        refine Climbs.bind (ih _ ?_ (ht.next Parse.advance) rfl) fun vs _ =>
          ⟨(Level.pure _).climbs, Attempt.Ensures.pure fun hfree => (anyHoldsBrace_cons hfree).2⟩
        show (Parse.advance t).next.rest.length < s.rest.length
        omega
      split
      · exact (Level.pure _).climbs
      · exact (Level.failUnexpected _).climbs
    · -- The first item stands in front of all that is given.
      apply Attempt.Ensures.lift_bind
      split
      · refine Attempt.Ensures.lift_bind (Attempt.Ensures.bind (P := fun _ _ => True)
          (fun _ _ => trivial) fun vs _ _ => ?_)
        exact Attempt.Ensures.pure fun hfree => (anyHoldsBrace_cons hfree).1
      split
      · exact Attempt.Ensures.pure fun hfree => (anyHoldsBrace_cons hfree).1
      · exact fun _ herror => by cases herror

/-- An array closes its brace behind its items. -/
theorem climbs_array (n : Nat) :
    ∀ s, Within source s → s.kind = .openCurly →
      Climbs (array source n) (·.holdsBrace = false) s := by
  induction n with
  | zero => exact fun s _ _ => Level.climbs (Reads.refl s)
  | succ n ih =>
    intro s h hkind
    have hopen := Reads.opener hkind
    have hinside : Within source (Parse.advance s).next := h.next Parse.advance
    obtain ⟨k, hk, hzero⟩ := climbs_items hinside
      fun t ht => climbs_valueWith ht (ih t ht)
    have hclosed := Parse.commaList_closed (show Kind.closeCurly ≠ .endOfInput by decide)
      "`,` or `\x7d`" (valueWith source (array source n)) (Parse.advance s).next
    generalize hlist : commaList .closeCurly "`,` or `\x7d`" (valueWith source (array source n)) =
      list at hk hzero hclosed
    -- The closing brace stands behind the list, so it is split off to use what is known of the
    -- list.
    let close (items : List Value) : Attempt Value := do
      let _ ← (advance : Parse Token)
      return .array items
    have harray : array source (n + 1) = (do
        let _ ← (advance : Parse Token)
        list >>= close) := by
      rw [← hlist]
      rfl
    rw [harray]
    cases hvalue : (list.run (Parse.advance s).next).value with
    | error d =>
      obtain ⟨herror, hnext⟩ := Attempt.bind_error (f := close) hvalue
      refine ⟨1 + k, ?_, fun v hv => ?_⟩
      · rw [Attempt.next_lift_bind, hnext]
        exact hopen.trans hk
      · rw [Attempt.value_lift_bind, herror] at hv
        cases hv
    | ok items =>
      obtain ⟨hok, hnext⟩ := Attempt.bind_ok (f := close) hvalue
      refine ⟨k, ?_, fun v hv hfree => ?_⟩
      · rw [Attempt.next_lift_bind, hnext]
        have hinner : Reads (k + 1) s (list.run (Parse.advance s).next).next := by
          rw [Nat.add_comm]
          exact hopen.trans hk
        exact hinner.closer (hclosed items hvalue)
      · rw [Attempt.value_lift_bind, hok] at hv
        cases hv
        exact hzero items hvalue hfree

/-- Any value climbs as far as its raw texts do. -/
theorem climbs_value (n : Nat) (h : Within source s) :
    Climbs (valueWith source (array source n)) (·.holdsBrace = false) s :=
  climbs_valueWith h (climbs_array n s h)

/-! ## Properties -/

/-- So does a property, as its head is level. -/
theorem climbs_property {value : Attempt Value}
    (hvalue : ∀ t, Within source t → Climbs value (·.holdsBrace = false) t)
    (h : Within source s) (hname : s.token.isName = true) :
    Climbs (property value) (·.value.holdsBrace = false) s := by
  obtain ⟨hopen, hclose⟩ := kind_of_isName hname
  refine (Level.advance hopen hclose).bind_climbs fun name _ => ?_
  refine level_brackets.bind_climbs fun isArray _ => ?_
  refine (level_assignment isArray).bind_climbs fun appends _ => ?_
  have hwithin := ((h.next Parse.advance).next brackets.run).next (assignment isArray).run
  refine Climbs.kind_bind ?_
  split
  · exact (Level.failUnexpected _).bind_climbs fun _ herror => by cases herror
  · refine (hvalue _ hwithin).bind fun v _ => ⟨?_, ?_⟩
    · refine Level.climbs ?_
      rw [Level, Attempt.next_lift_bind, Attempt.next_lift_bind]
      exact reads_terminator _ _
    · exact Attempt.Ensures.lift_bind (Attempt.Ensures.lift_bind (Attempt.Ensures.pure id))

end Values

end Sqf.Config
