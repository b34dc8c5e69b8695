import Sqf.Proofs.Config.Reads
import Sqf.Proofs.Parse.Progress

/-!
# Reading a file behind other text

The tokens of a file that stands behind other text are its own tokens, moved. Two parsers
are `Alike` if they give the same on tokens as on the same tokens moved, up to places. Every
parser of config files is, so the entries of a file do not depend on what stands before it
(`alike_allEntries`).
-/

namespace Sqf

namespace Text

/-- A text behind another is cut where it is cut by itself, so many bytes further on. -/
theorem splitAt?_behind (front cs : List Char) (n : Nat) :
    splitAt? (width front + n) (front ++ cs) =
      (splitAt? n cs).map fun parts => (front ++ parts.1, parts.2) := by
  induction front with
  | nil => simp
  | cons c front ih =>
    have hpos : 0 < c.utf8Size := c.utf8Size_pos
    obtain ⟨m, hm⟩ : ∃ m, width (c :: front) + n = m + 1 :=
      ⟨width (c :: front) + n - 1, by rw [width_cons]; omega⟩
    have hle : c.utf8Size ≤ m + 1 := by rw [← hm, width_cons]; omega
    have hrest : m + 1 - c.utf8Size = width front + n := by rw [← hm, width_cons]; omega
    rw [hm, List.cons_append, splitAt?, if_pos hle, hrest, ih, Option.map_map]
    rfl

/-- Text that stands further on is found there. -/
theorem slice?_behind (front cs : List Char) (start stop : Nat) :
    slice? (start + width front) (stop + width front) (front ++ cs) = slice? start stop cs := by
  have hlength : stop + width front - (start + width front) = stop - start := by omega
  have hle : start + width front ≤ stop + width front ↔ start ≤ stop := by omega
  unfold slice?
  rw [Nat.add_comm start, splitAt?_behind, Nat.add_comm (width front) start, hlength]
  simp only [hle]
  cases splitAt? start cs <;> rfl

end Text

namespace Config

open Parse (State state kind advance skip report failUnexpected expect commaList many)

/-! ## States -/

/-- The tokens that are left are the same, but stand `n` bytes further on. -/
def Moved (n : Nat) (s s' : State) : Prop := s.rest = s'.rest.map (Token.moved n)

namespace Moved

variable {n : Nat} {s s' : State}

/-- What is read of the next token does not depend on its place. -/
theorem lexeme (h : Moved n s s') : s.token.lexeme = s'.token.lexeme := by
  unfold Moved at h
  cases hrest : s'.rest with
  | nil =>
    rw [hrest] at h
    simp [State.token, hrest, h, Token.lexeme]
  | cons t ts =>
    rw [hrest] at h
    rw [State.token_cons hrest, State.token_cons h]
    rfl

/-- Parsers look at the kind of the next token, which is the same. -/
theorem kind (h : Moved n s s') : s.kind = s'.kind := congrArg Lexeme.kind h.lexeme

theorem value (h : Moved n s s') : s.token.value = s'.token.value :=
  congrArg Lexeme.value h.lexeme

theorem isName (h : Moved n s s') : s.token.isName = s'.token.isName := by
  rw [Token.isName, Token.isName, show s.token.kind = s'.token.kind from h.kind]

/-- As many tokens are left. -/
theorem length (h : Moved n s s') : s.rest.length = s'.rest.length := by
  rw [h, List.length_map]

/-- The same number of tokens can be left out on both sides. -/
theorem drop (h : Moved n s s') (m : Nat) : Moved n (s.drop m) (s'.drop m) := by
  show s.rest.drop m = (s'.rest.drop m).map (Token.moved n)
  rw [h, List.map_drop]

/-- Reading one token on each side leaves the rest moved as before. -/
theorem advance (h : Moved n s s') : Moved n (Parse.advance s).next (Parse.advance s').next := by
  rw [Parse.next_advance_eq, Parse.next_advance_eq]
  show s.rest.tail = s'.rest.tail.map (Token.moved n)
  rw [h, List.map_tail]

end Moved

/-! ## Parsers -/

/-- In these states the parsers give values with the same image, and they leave the same tokens,
moved. -/
def Alike (n : Nat) (image : α → γ) (p q : Parse α) (s s' : State) : Prop :=
  image (p s).value = image (q s').value ∧ Moved n (p s).next (q s').next

/-- The same of parsers that may fail: both of them fail, or none. -/
def AlikeOrFail (n : Nat) (image : α → γ) (x y : Attempt α) (s s' : State) : Prop :=
  Alike n (fun r => r.toOption.map image) x.run y.run s s'

section Rules

variable {γ δ : Type} {n : Nat} {image : α → γ} {image' : β → δ} {s s' : State}

/-- What is given without reading has to be the same up to places. -/
theorem Alike.pure {a b : α} (hs : Moved n s s') (h : image a = image b) :
    Alike n image (Pure.pure a) (Pure.pure b) s s' :=
  ⟨h, hs⟩

/-- Parsers that are alike are put together: the second ones see results that are the same up to
places, and tokens that are moved. -/
theorem Alike.bind {p q : Parse α} {f g : α → Parse β} (h : Alike n image p q s s')
    (hf : ∀ a b, image a = image b → Moved n (p s).next (q s').next →
      Alike n image' (f a) (g b) (p s).next (q s').next) :
    Alike n image' (p >>= f) (q >>= g) s s' :=
  hf _ _ h.1 h.2

theorem Alike.state_bind {f g : State → Parse β} (h : Alike n image' (f s) (g s') s s') :
    Alike n image' (state >>= f) (state >>= g) s s' := h

/-- A choice by the kind of the next token is the same on both sides. -/
theorem Alike.kind_bind {f g : Kind → Parse β} (hs : Moved n s s')
    (h : Alike n image' (f s'.kind) (g s'.kind) s s') :
    Alike n image' (kind >>= f) (kind >>= g) s s' := by
  rw [← hs.kind] at h
  show Alike n image' (f s.kind) (g s'.kind) s s'
  rwa [← hs.kind]

/-- The token that is read is the same but for its place. -/
theorem Alike.advance (hs : Moved n s s') :
    Alike n Token.lexeme Parse.advance Parse.advance s s' := by
  refine ⟨?_, hs.advance⟩
  rw [Parse.value_advance, Parse.value_advance]
  exact hs.lexeme

/-- Tokens can be passed over without a look at them. -/
theorem Alike.skip (hs : Moved n s s') (m : Nat) :
    Alike n (fun _ => ()) (Parse.skip m) (Parse.skip m) s s' :=
  ⟨rfl, hs.drop m⟩

/-- A report changes nothing that is compared here. -/
theorem Alike.report (hs : Moved n s s') (d d' : Diagnostic) :
    Alike n (fun _ => ()) (Parse.report d) (Parse.report d') s s' :=
  ⟨rfl, hs⟩

/-- A span is nothing but a place, so any two are as good. -/
theorem Alike.spanFrom (hs : Moved n s s') (start start' : Span) :
    Alike n (fun _ => ()) (Parse.spanFrom start) (Parse.spanFrom start') s s' :=
  ⟨rfl, hs⟩

/-- A result that is there on both sides has to be the same up to places. -/
theorem AlikeOrFail.pure {a b : α} (hs : Moved n s s') (h : image a = image b) :
    AlikeOrFail n image (Pure.pure a) (Pure.pure b) s s' :=
  ⟨congrArg some h, hs⟩

/-- Parsers that cannot fail are alike as parsers that can. -/
theorem AlikeOrFail.lift {p q : Parse α} (h : Alike n image p q s s') :
    AlikeOrFail n image (liftM p) (liftM q) s s' :=
  ⟨congrArg some h.1, h.2⟩

/-- Both sides may fail with reports of their own, as these are about places. -/
theorem AlikeOrFail.throw (hs : Moved n s s') (d d' : Diagnostic) :
    AlikeOrFail n image (MonadExcept.throw d) (MonadExcept.throw d') s s' :=
  ⟨rfl, hs⟩

/-- What is not expected is the next token, which is the same but for its place. -/
theorem AlikeOrFail.failUnexpected (hs : Moved n s s') (expectation : String) :
    AlikeOrFail n image (Parse.failUnexpected expectation) (Parse.failUnexpected expectation)
      s s' :=
  ⟨rfl, hs⟩

/-- What stands behind a failure makes no difference. -/
theorem AlikeOrFail.failUnexpected_bind {f g : α → Attempt β} (hs : Moved n s s')
    (expectation : String) :
    AlikeOrFail n image' (Parse.failUnexpected expectation >>= f)
      (Parse.failUnexpected expectation >>= g) s s' :=
  ⟨rfl, hs⟩

/-- If one side fails then so does the other, and both stop where they are. Otherwise both go on. -/
theorem AlikeOrFail.bind {x y : Attempt α} {f g : α → Attempt β}
    (h : AlikeOrFail n image x y s s')
    (hf : ∀ a b, image a = image b → Moved n (x.run s).next (y.run s').next →
      AlikeOrFail n image' (f a) (g b) (x.run s).next (y.run s').next) :
    AlikeOrFail n image' (x >>= f) (y >>= g) s s' := by
  obtain ⟨hvalue, hnext⟩ := h
  -- The results agree on whether they are there, so two of the four cases cannot be.
  cases hx : (x.run s).value with
  | error d =>
    cases hy : (y.run s').value with
    | ok b => rw [hx, hy] at hvalue; cases hvalue
    | error e =>
      obtain ⟨hxvalue, hxnext⟩ := Attempt.bind_error (f := f) hx
      obtain ⟨hyvalue, hynext⟩ := Attempt.bind_error (f := g) hy
      unfold AlikeOrFail Alike
      rw [hxvalue, hxnext, hyvalue, hynext]
      exact ⟨rfl, hnext⟩
  | ok a =>
    cases hy : (y.run s').value with
    | error e => rw [hx, hy] at hvalue; cases hvalue
    | ok b =>
      rw [hx, hy] at hvalue
      obtain ⟨hxvalue, hxnext⟩ := Attempt.bind_ok (f := f) hx
      obtain ⟨hyvalue, hynext⟩ := Attempt.bind_ok (f := g) hy
      unfold AlikeOrFail Alike
      rw [hxvalue, hxnext, hyvalue, hynext]
      exact hf a b (Option.some.inj hvalue) hnext

/-- A first part that cannot fail leaves the failure to the second. -/
theorem AlikeOrFail.lift_bind {p q : Parse α} {f g : α → Attempt β}
    (h : Alike n image p q s s')
    (hf : ∀ a b, image a = image b → Moved n (p s).next (q s').next →
      AlikeOrFail n image' (f a) (g b) (p s).next (q s').next) :
    AlikeOrFail n image' (liftM p >>= f) (liftM q >>= g) s s' :=
  hf _ _ h.1 h.2

theorem AlikeOrFail.state_bind {f g : State → Attempt β}
    (h : AlikeOrFail n image' (f s) (g s') s s') :
    AlikeOrFail n image' (liftM state >>= f) (liftM state >>= g) s s' := h

/-- The choice by the kind of the next token, among parsers that may fail. -/
theorem AlikeOrFail.kind_bind {f g : Kind → Attempt β} (hs : Moved n s s')
    (h : AlikeOrFail n image' (f s'.kind) (g s'.kind) s s') :
    AlikeOrFail n image' (liftM kind >>= f) (liftM kind >>= g) s s' :=
  Alike.kind_bind hs h

/-- The next token is read, whose kind and text are the same. -/
theorem AlikeOrFail.advance_bind {f g : Token → Attempt β} (hs : Moved n s s')
    (hf : ∀ t t' : Token, t.lexeme = t'.lexeme →
      ∀ u u', Moved n u u' → AlikeOrFail n image' (f t) (g t') u u') :
    AlikeOrFail n image' (liftM Parse.advance >>= f) (liftM Parse.advance >>= g) s s' :=
  AlikeOrFail.lift_bind (Alike.advance hs) fun t t' ht hnext => hf t t' ht _ _ hnext

/-- A token of one kind is expected: both sides find it or both fail. -/
theorem AlikeOrFail.expect (hs : Moved n s s') (k : Kind) (expectation : String) :
    AlikeOrFail n Token.lexeme (Parse.expect k expectation) (Parse.expect k expectation) s s' := by
  refine AlikeOrFail.kind_bind hs ?_
  split
  · exact AlikeOrFail.lift (Alike.advance hs)
  · exact AlikeOrFail.failUnexpected hs _

/-- Turns that are alike take the same number of rounds. The induction is on the tokens that are
left, of which each round takes one at least. -/
theorem Alike.many {turn turn' : Parse (Option α)}
    (h : ∀ s s', Moved n s s' → Alike n (Option.map image) turn turn' s s')
    (hs : Moved n s s') :
    Alike n (List.map image) (Parse.many turn) (Parse.many turn') s s' := by
  generalize hlength : s.rest.length = length
  induction length using Nat.strong_induction_on generalizing s s' with
  | _ length ih =>
    subst hlength
    obtain ⟨hvalue, hnext⟩ := h s s' hs
    unfold Alike
    cases hx : (turn s).value with
    | none =>
      cases hy : (turn' s').value with
      | some b => rw [hx, hy] at hvalue; cases hvalue
      | none =>
        obtain ⟨hmany, hmanyNext⟩ := Parse.many_of_none hx
        obtain ⟨hmany', hmanyNext'⟩ := Parse.many_of_none hy
        rw [hmany, hmanyNext, hmany', hmanyNext']
        exact ⟨rfl, hnext⟩
    | some a =>
      cases hy : (turn' s').value with
      | none => rw [hx, hy] at hvalue; cases hvalue
      | some b =>
        rw [hx, hy] at hvalue
        have hab : image a = image b := Option.some.inj hvalue
        -- Both loops go on, or both are cut off.
        by_cases hlt : (turn s).next.rest.length < s.rest.length
        · have hlt' : (turn' s').next.rest.length < s'.rest.length := by
            rwa [← hnext.length, ← hs.length]
          obtain ⟨hmany, hmanyNext⟩ := Parse.many_of_some hx hlt
          obtain ⟨hmany', hmanyNext'⟩ := Parse.many_of_some hy hlt'
          obtain ⟨hothers, hothersNext⟩ := ih _ hlt hnext rfl
          rw [hmany, hmanyNext, hmany', hmanyNext', List.map_cons, List.map_cons, hab, hothers]
          exact ⟨rfl, hothersNext⟩
        · have hlt' : ¬ (turn' s').next.rest.length < s'.rest.length := by
            rwa [← hnext.length, ← hs.length]
          obtain ⟨hmany, hmanyNext⟩ := Parse.many_of_stuck hx hlt
          obtain ⟨hmany', hmanyNext'⟩ := Parse.many_of_stuck hy hlt'
          rw [hmany, hmanyNext, hmany', hmanyNext', List.map_singleton, List.map_singleton, hab]
          exact ⟨rfl, hnext⟩

/-- Lists between brackets are read alike if their items are. The induction is on the tokens that
are left; an item may read none, but the comma behind it is read. -/
theorem AlikeOrFail.commaList {x y : Attempt α} {closer : Kind} (hcloser : closer ≠ .endOfInput)
    (expectation : String) (h : ∀ s s', Moved n s s' → AlikeOrFail n image x y s s')
    (hs : Moved n s s') :
    AlikeOrFail n (List.map image) (Parse.commaList closer expectation x)
      (Parse.commaList closer expectation y) s s' := by
  generalize hlength : s.rest.length = length
  induction length using Nat.strong_induction_on generalizing s s' with
  | _ length ih =>
    subst hlength
    rw [Parse.commaList_eq hcloser expectation x, Parse.commaList_eq hcloser expectation y]
    refine AlikeOrFail.kind_bind hs ?_
    split
    · exact AlikeOrFail.pure hs rfl
    refine (h s s' hs).bind fun a b hab hnext => ?_
    refine AlikeOrFail.kind_bind hnext ?_
    split
    · next hcomma =>
      refine AlikeOrFail.lift_bind (Alike.advance hnext) fun _ _ _ hbehind => ?_
      -- Behind the comma fewer tokens are left than the list began with.
      refine AlikeOrFail.bind (ih _ ?_ hbehind rfl) fun as bs habs hrest => ?_
      · have hlt := Parse.length_advance (s := (x.run s).next) (by
          rw [hnext.kind, hcomma]
          decide)
        have hle := Parse.length_next_le x.run s
        omega
      · exact AlikeOrFail.pure hrest (by rw [List.map_cons, List.map_cons, hab, habs])
    split
    · exact AlikeOrFail.pure hnext (by rw [List.map_singleton, List.map_singleton, hab])
    · exact AlikeOrFail.failUnexpected hnext _

end Rules

/-! ## Values -/

section Values

variable {n : Nat} {s s' : State} {front source : List Char}

/-- Raw text is the same where it stands behind other text. -/
theorem alike_word (hs : Moved (Text.width front) s s') (hkind : endsWord s'.kind = false) :
    Alike (Text.width front) id (word (front ++ source)) (word source) s s' := by
  have hend : s'.kind ≠ .endOfInput := by
    intro hend
    rw [hend] at hkind
    cases hkind
  obtain ⟨ts, hts⟩ := State.exists_cons hend
  have hrest : s.rest = s'.rest.map (Token.moved (Text.width front)) := hs
  have htoken : s.token = s'.token.moved (Text.width front) := by
    rw [hts] at hrest
    exact State.token_cons hrest
  generalize hlength' : (s'.rest.takeWhile fun t => !endsWord t.kind).length = length
  have hlength : (s.rest.takeWhile fun t => !endsWord t.kind).length = length := by
    rw [hrest, List.takeWhile_map, List.length_map, ← hlength']
    rfl
  -- At least one token is read, and the last one says where the text ends.
  have hpos : 0 < length := by
    rw [← hlength', hts, List.takeWhile_cons, show endsWord s'.token.kind = false from hkind]
    exact Nat.succ_pos _
  have hlast : (s.drop length).lastEnd = (s'.drop length).lastEnd + Text.width front := by
    obtain ⟨last, hlast⟩ : ∃ last, (s'.rest.take length).getLast? = some last := by
      rw [← Option.isSome_iff_exists, List.getLast?_isSome, hts]
      intro hnil
      rcases List.take_eq_nil_iff.1 hnil with hzero | hnil
      · omega
      · cases hnil
    have hlast' : (s.rest.take length).getLast? = some (last.moved (Text.width front)) := by
      rw [hrest, ← List.map_take, List.getLast?_map, hlast]
      rfl
    simp only [State.drop, hlast, hlast']
    rfl
  have hvalue : (word (front ++ source) s).value = .word (.ofList (Text.trim
      ((Text.slice? s.token.span.start (s.drop length).lastEnd (front ++ source)).getD []))) := by
    rw [← hlength]
    rfl
  have hvalue' : (word source s').value = .word (.ofList (Text.trim
      ((Text.slice? s'.token.span.start (s'.drop length).lastEnd source).getD []))) := by
    rw [← hlength']
    rfl
  constructor
  · rw [hvalue, hvalue', hlast, htoken]
    show id (Value.word (.ofList (Text.trim ((Text.slice? (s'.token.span.start + Text.width front)
      ((s'.drop length).lastEnd + Text.width front) (front ++ source)).getD [])))) = _
    rw [Text.slice?_behind]
  · show Moved _ (s.drop (s.rest.takeWhile fun t => !endsWord t.kind).length)
      (s'.drop (s'.rest.takeWhile fun t => !endsWord t.kind).length)
    rw [hlength, hlength']
    exact hs.drop length

/-- A number is read of the text of its token. -/
theorem alike_number (hs : Moved n s s') (negative : Bool) :
    AlikeOrFail n id (number negative) (number negative) s s' := by
  refine (AlikeOrFail.expect hs .number "a number").bind fun t t' ht hnext => ?_
  rw [show t.value = t'.value from congrArg Lexeme.value ht]
  split
  · exact AlikeOrFail.pure hnext rfl
  · exact AlikeOrFail.throw hnext _ _

/-- A value is read alike if an array is. A word is cut out of the source, so here the texts in
front matter: the offsets differ by the width of what stands before the file. -/
theorem alike_valueWith {array array' : Attempt Value}
    (harray : AlikeOrFail (Text.width front) id array array' s s')
    (hs : Moved (Text.width front) s s') :
    AlikeOrFail (Text.width front) id (valueWith (front ++ source) array)
      (valueWith source array') s s' := by
  refine AlikeOrFail.kind_bind hs ?_
  generalize hkind : s'.kind = k
  split
  · refine AlikeOrFail.advance_bind hs fun t t' ht u u' hu => ?_
    exact AlikeOrFail.pure hu (by rw [show t.value = t'.value from congrArg Lexeme.value ht])
  · exact alike_number hs false
  · exact AlikeOrFail.advance_bind hs fun _ _ _ u u' hu => alike_number hu true
  · exact harray
  · next hother =>
    split
    · exact AlikeOrFail.failUnexpected hs _
    · next hin =>
      rw [Bool.not_eq_true, ← hkind] at hin
      exact AlikeOrFail.lift (alike_word hs hin)

/-- Arrays are read alike at every level of nesting that is left. The induction is on the levels. -/
theorem alike_array (levels : Nat) :
    ∀ s s', Moved (Text.width front) s s' →
      AlikeOrFail (Text.width front) id (array (front ++ source) levels) (array source levels)
        s s' := by
  induction levels with
  | zero => exact fun s s' hs => ⟨rfl, hs⟩
  | succ levels ih =>
    intro s s' hs
    refine AlikeOrFail.advance_bind hs fun _ _ _ t t' ht => ?_
    refine (AlikeOrFail.commaList (by decide) _
      (fun u u' hu => alike_valueWith (ih u u' hu) hu) ht).bind fun items items' hitems hnext => ?_
    rw [List.map_id, List.map_id] at hitems
    rw [hitems]
    exact AlikeOrFail.advance_bind hnext fun _ _ _ u u' hu => AlikeOrFail.pure hu rfl

/-- A value at some level of nesting. -/
theorem alike_value (levels : Nat) (hs : Moved (Text.width front) s s') :
    AlikeOrFail (Text.width front) id
      (valueWith (front ++ source) (array (front ++ source) levels))
      (valueWith source (array source levels)) s s' :=
  alike_valueWith (alike_array levels s s' hs) hs

end Values

/-! ## Properties and classes -/

section Entries

variable {n : Nat} {s s' : State} {front source : List Char}

/-- Whether there is a separator depends on the kind of the next token only; where a missing one is
reported is a place. -/
theorem alike_terminator (hs : Moved n s s') (stop stop' : Nat) :
    Alike n (fun _ => ()) (terminator stop) (terminator stop') s s' := by
  refine Alike.state_bind ?_
  rw [hs.kind]
  split
  · exact (Alike.advance hs).bind fun _ _ _ hnext => Alike.pure hnext rfl
  · exact ⟨rfl, hs⟩

/-- A name is expected, and it is the same name. -/
theorem alike_name (hs : Moved n s s') (expectation : String) :
    AlikeOrFail n Token.lexeme (name expectation) (name expectation) s s' := by
  refine AlikeOrFail.state_bind ?_
  rw [hs.isName]
  split
  · exact AlikeOrFail.lift (Alike.advance hs)
  · exact AlikeOrFail.failUnexpected hs _

/-- A pair of brackets behind a name makes an array of the property. -/
theorem alike_brackets (hs : Moved n s s') : AlikeOrFail n id brackets brackets s s' := by
  refine AlikeOrFail.kind_bind hs ?_
  split
  · refine AlikeOrFail.advance_bind hs fun _ _ _ t t' ht => ?_
    exact (AlikeOrFail.expect ht .closeBracket _).bind fun _ _ _ hnext =>
      AlikeOrFail.pure hnext rfl
  · exact AlikeOrFail.pure hs rfl

/-- Only arrays can be appended to. -/
theorem alike_assignment (hs : Moved n s s') (isArray : Bool) :
    AlikeOrFail n id (assignment isArray) (assignment isArray) s s' := by
  refine AlikeOrFail.kind_bind hs ?_
  split
  · exact AlikeOrFail.advance_bind hs fun _ _ _ t t' ht => AlikeOrFail.pure ht rfl
  · exact AlikeOrFail.failUnexpected hs _

/-- A property is read alike if its value is. Its parts are followed one by one, as they
are read. -/
theorem alike_property {value value' : Attempt Value}
    (hvalue : ∀ s s', Moved n s s' → AlikeOrFail n id value value' s s') (hs : Moved n s s') :
    AlikeOrFail n (fun p => (Entry.property p).unplaced) (property value) (property value')
      s s' := by
  refine AlikeOrFail.advance_bind hs fun name name' hname t t' ht => ?_
  refine (alike_brackets ht).bind fun isArray _ hisArray hnext => ?_
  obtain rfl : isArray = _ := hisArray
  refine (alike_assignment hnext isArray).bind fun appends _ happends hnext => ?_
  obtain rfl : appends = _ := happends
  refine AlikeOrFail.kind_bind hnext ?_
  split
  · exact AlikeOrFail.failUnexpected_bind hnext _
  · refine (hvalue _ _ hnext).bind fun v _ hv hnext => ?_
    obtain rfl : v = _ := hv
    refine AlikeOrFail.lift_bind (Alike.spanFrom hnext _ _) fun span span' _ hnext => ?_
    refine AlikeOrFail.lift_bind (alike_terminator hnext _ _) fun _ _ _ hnext =>
      AlikeOrFail.pure hnext ?_
    rw [show name.value = name'.value from congrArg Lexeme.value hname]
    rfl

/-- The class that a class is derived from is named behind a colon. -/
theorem alike_parent (hs : Moved n s s') : AlikeOrFail n id parent parent s s' := by
  refine AlikeOrFail.kind_bind hs ?_
  split
  · refine AlikeOrFail.advance_bind hs fun _ _ _ t t' ht => ?_
    refine (alike_name ht _).bind fun u u' hu hnext => AlikeOrFail.pure hnext ?_
    rw [show u.value = u'.value from congrArg Lexeme.value hu]
  · exact AlikeOrFail.pure hs rfl

/-- A closing brace with its separator, which may be missing. -/
theorem alike_closing (hs : Moved n s s') : Alike n (fun _ => ()) closing closing s s' := by
  refine Alike.state_bind ?_
  rw [hs.kind]
  split
  · refine (Alike.advance hs).bind fun _ _ _ hnext => ?_
    exact (alike_terminator hnext _ _).bind fun _ _ _ hnext => Alike.pure hnext rfl
  · exact ⟨rfl, hs⟩

/-- A class is read alike if its body is: its name, the class it is derived from, and either nothing
more or the entries of the body. -/
theorem alike_classWith {body body' : Attempt (List Entry)}
    (hbody : ∀ s s', Moved n s s' → AlikeOrFail n (List.map Entry.unplaced) body body' s s')
    (hs : Moved n s s') :
    AlikeOrFail n Class.unplaced (classWith body) (classWith body') s s' := by
  refine AlikeOrFail.advance_bind hs fun start start' _ t t' ht => ?_
  refine (alike_name ht _).bind fun name name' hname hnext => ?_
  refine (alike_parent hnext).bind fun base _ hbase hnext => ?_
  obtain rfl : base = _ := hbase
  have htext : name.value = name'.value := congrArg Lexeme.value hname
  refine AlikeOrFail.kind_bind hnext ?_
  split
  · refine AlikeOrFail.advance_bind hnext fun _ _ _ u u' hu => AlikeOrFail.pure hu ?_
    rw [htext]
    rfl
  · refine (hbody _ _ hnext).bind fun es es' hes hnext => ?_
    refine AlikeOrFail.lift_bind (alike_closing hnext) fun _ _ _ hnext =>
      AlikeOrFail.pure hnext ?_
    rw [Class.unplaced, Class.unplaced, unplacedAll_eq_map, unplacedAll_eq_map, htext, hes]
  · exact AlikeOrFail.failUnexpected hnext _

/-! ## Entries -/

/-- How far an entry goes is counted in tokens and braces. -/
theorem entryLength_moved (depth : Nat) (ts : List Token) :
    entryLength depth (ts.map (Token.moved n)) = entryLength depth ts := by
  induction ts generalizing depth with
  | nil => rfl
  | cons t ts ih => simp only [List.map_cons, entryLength, ih, Token.moved]

/-- So is the number of braces that are open. -/
theorem openBraces_moved (ts : List Token) :
    openBraces (ts.map (Token.moved n)) = openBraces ts := by
  rw [openBraces, List.foldl_map]
  rfl

/-- What is passed over after an error is the rest of the entry, and how many tokens that are does
not depend on places. -/
theorem alike_synchronize {start start' : State} (hstart : Moved n start start')
    (hs : Moved n s s') :
    Alike n (fun _ => ()) (synchronize start) (synchronize start') s s' := by
  refine Alike.state_bind ?_
  have hsince : s.readSince start = (s'.readSince start').map (Token.moved n) := by
    rw [State.readSince, State.readSince, hs.length, hstart.length, List.map_take]
    rw [show start.rest = _ from hstart]
  have hcount : entryLength (openBraces (s.readSince start)) s.rest =
      entryLength (openBraces (s'.readSince start')) s'.rest := by
    rw [hsince, openBraces_moved, show s.rest = _ from hs, entryLength_moved]
  rw [hcount]
  refine (Alike.skip hs _).bind fun _ _ _ hnext => Alike.state_bind ?_
  rw [hnext.length, hstart.length]
  split
  · exact (Alike.advance hnext).bind fun _ _ _ hnext => Alike.pure hnext rfl
  · exact ⟨rfl, hnext⟩

/-- What kind of entry begins is told by the next token. -/
theorem alike_entry {body body' : Attempt (List Entry)} {value value' : Attempt Value}
    (hbody : ∀ s s', Moved n s s' → AlikeOrFail n (List.map Entry.unplaced) body body' s s')
    (hvalue : ∀ s s', Moved n s s' → AlikeOrFail n id value value' s s') (hs : Moved n s s') :
    AlikeOrFail n Entry.unplaced (entry body value) (entry body' value') s s' := by
  refine AlikeOrFail.state_bind ?_
  dsimp only
  rw [hs.isName, hs.value]
  split
  · exact AlikeOrFail.failUnexpected hs _
  split
  · refine (alike_classWith hbody hs).bind fun c c' hc hnext => AlikeOrFail.pure hnext ?_
    rw [Entry.unplaced, Entry.unplaced, hc]
  · exact (alike_property hvalue hs).bind fun p p' hp hnext => AlikeOrFail.pure hnext hp

/-- One turn reads an entry or passes over a broken one. If one side fails so does the other, and
both pass over the same tokens. -/
theorem alike_turn {body body' : Attempt (List Entry)} {value value' : Attempt Value}
    (hbody : ∀ s s', Moved n s s' → AlikeOrFail n (List.map Entry.unplaced) body body' s s')
    (hvalue : ∀ s s', Moved n s s' → AlikeOrFail n id value value' s s') (hs : Moved n s s') :
    Alike n (Option.map (Option.map Entry.unplaced)) (turn body value) (turn body' value')
      s s' := by
  refine Alike.kind_bind hs ?_
  split
  · exact Alike.pure hs rfl
  · exact Alike.pure hs rfl
  · exact (Alike.advance hs).bind fun _ _ _ hnext => Alike.pure hnext rfl
  · refine Alike.state_bind ?_
    refine Alike.bind (alike_entry hbody hvalue hs) fun r r' hr hnext => ?_
    cases r with
    | ok e =>
      cases r' with
      | error d => cases hr
      | ok e' => exact Alike.pure hnext (congrArg (some ∘ some) (Option.some.inj hr))
    | error d =>
      cases r' with
      | ok e => cases hr
      -- Both report something, each at its place, and pass over the same tokens.
      | error d' =>
        refine (Alike.report hnext d d').bind fun _ _ _ hnext => ?_
        exact (alike_synchronize hs hnext).bind fun _ _ _ hnext => Alike.pure hnext rfl

/-- Entries are read in turns. -/
theorem alike_entriesWith {body body' : Attempt (List Entry)} {value value' : Attempt Value}
    (hbody : ∀ s s', Moved n s s' → AlikeOrFail n (List.map Entry.unplaced) body body' s s')
    (hvalue : ∀ s s', Moved n s s' → AlikeOrFail n id value value' s s') (hs : Moved n s s') :
    Alike n (List.map Entry.unplaced) (entriesWith body value) (entriesWith body' value') s s' := by
  refine (Alike.many (fun t t' ht => alike_turn hbody hvalue ht) hs).bind fun found found' hfound
    hnext => Alike.pure hnext ?_
  have hfilter (es : List (Option Entry)) : (es.filterMap id).map Entry.unplaced =
      (es.map (Option.map Entry.unplaced)).filterMap id := by
    rw [List.map_filterMap, List.filterMap_map]
    rfl
  rw [hfilter, hfilter, hfound]

/-- A body is read alike at every level that is left, by induction on the levels. -/
theorem alike_body (levels : Nat) :
    ∀ s s', Moved (Text.width front) s s' →
      AlikeOrFail (Text.width front) (List.map Entry.unplaced) (body (front ++ source) levels)
        (body source levels) s s' := by
  induction levels with
  | zero => exact fun s s' hs => ⟨rfl, hs⟩
  | succ levels ih =>
    intro s s' hs
    refine AlikeOrFail.advance_bind hs fun _ _ _ t t' ht => ?_
    exact AlikeOrFail.lift
      (alike_entriesWith ih (fun u u' hu => alike_value levels hu) ht)

/-! ## Files -/

/-- The entries of a file up to a brace that closes nothing. -/
theorem alike_topEntries (hs : Moved (Text.width front) s s') :
    Alike (Text.width front) (List.map Entry.unplaced) (topEntries (front ++ source))
      (topEntries source) s s' :=
  alike_entriesWith (alike_body _) (fun _ _ ht => alike_value _ ht) hs

/-- A brace that closes nothing is passed over, and entries are read behind it. -/
theorem alike_strayTurn (hs : Moved (Text.width front) s s') :
    Alike (Text.width front) (Option.map (List.map Entry.unplaced))
      (strayTurn (front ++ source)) (strayTurn source) s s' := by
  refine Alike.kind_bind hs ?_
  split
  · exact Alike.pure hs rfl
  refine Alike.bind (q := Parse.reportUnexpected _) (Alike.state_bind (Alike.report hs _ _))
    fun _ _ _ hnext => ?_
  refine (Alike.advance hnext).bind fun _ _ _ hnext => ?_
  refine (alike_topEntries hnext).bind fun es es' hes hnext => Alike.pure hnext ?_
  rw [Option.map_some, Option.map_some, hes]

/-- The entries of a file are the same behind other text. -/
theorem alike_allEntries (hs : Moved (Text.width front) s s') :
    Alike (Text.width front) (List.map Entry.unplaced) (allEntries (front ++ source))
      (allEntries source) s s' := by
  refine (alike_topEntries hs).bind fun es es' hes hnext => ?_
  refine (Alike.many (fun t t' ht => alike_strayTurn ht) hnext).bind fun others others' hothers
    hnext => Alike.pure hnext ?_
  rw [List.map_append, List.map_append, hes, List.map_flatten, List.map_flatten, hothers]

end Entries

end Config

end Sqf
