import Mathlib.Data.List.Perm.Basic
import Sqf.Numeral
import Sqf.Proofs.Parse.Nesting
import Sqf.Tree.Node

/-!
# The code that a tree keeps

The code of a script is in its numbers, strings, names and operators. A tree
holds it in its leaves: literals, variables, targets of assignments, loop
variables and the names of commands. `Covers` says that the leaves of a tree are the
code of some tokens, each token being in one leaf.

Of a loop header in brackets only the first three parts are kept. `headersFit` says
of tokens that no header has more.
-/

namespace Sqf

namespace Kind

/-- The symbols and connectives that are written in front of an operand or between two. -/
def isOperator : Kind → Bool
  | equals | not | notEquals | less | lessEquals | greater | greaterEquals | configPath | or | and
  | plusEquals | plus | dash | slash | star | percent | caret | hash => true
  | _ => false

/-- Whether a token of this kind is code, which a tree has to hold. Brackets, separators, the
assignment sign and the keywords of constructs only give the code its shape. -/
def isCode (k : Kind) : Bool := k == number || k == string || k == identifier || k.isOperator

/-- Whether a token of this kind stands in a part of a script without being code, as keywords and
the assignment sign do. -/
def isShape (k : Kind) : Bool := k.isInner && !k.isSeparator && !k.isCode

end Kind

/-! ## Leaves -/

/-- A token that a tree holds. -/
inductive Leaf where
  | number (value : Double) (span : Span)
  | string (value : String) (span : Span)
  | name (n : Name)
  | target (n : Name)
  | loopVariable (n : Name)
  | command (n : Name)

namespace Leaf

def span : Leaf → Span
  | number _ span => span
  | string _ span => span
  | name n => n.span
  | target n => n.span
  | loopVariable n => n.span
  | command n => n.span

/-- The leaf holds a token: it has its text, or its value if it is a number, and its span. A command
may be the keyword `private`. -/
def IsOf : Leaf → Token → Prop
  | number value span, t =>
    t.kind = .number ∧ Numeral.read? t.value = some value ∧ span = t.span
  | string value span, t => t.kind = .string ∧ value = t.value ∧ span = t.span
  | name n, t => t.kind = .identifier ∧ n = ⟨t.value, t.span⟩
  | target n, t => t.kind = .identifier ∧ n = ⟨t.value, t.span⟩
  | loopVariable n, t => t.kind = .string ∧ n = ⟨t.value, t.span⟩
  | command n, t =>
    (t.kind = .identifier ∨ t.kind = .privateWord ∨ t.kind.isOperator = true) ∧
      n = ⟨t.value, t.span⟩

/-- A leaf has the place of its token. -/
theorem IsOf.span_eq {l : Leaf} {t : Token} (h : l.IsOf t) : l.span = t.span := by
  cases l with
  | number value span => exact h.2.2
  | string value span => exact h.2.2
  | name n => exact congrArg Name.span h.2
  | target n => exact congrArg Name.span h.2
  | loopVariable n => exact congrArg Name.span h.2
  | command n => exact congrArg Name.span h.2

end Leaf

namespace ForHeader

/-- The loop variable, if the header has one. -/
def ownLeaves : ForHeader → List Leaf
  | range loopVariable _ _ _ => [.loopVariable loopVariable]
  | classic _ _ _ | missing => []

end ForHeader

namespace Control

def ownLeaves : Control → List Leaf
  | forDo header _ _ => header.ownLeaves
  | _ => []

end Control

namespace Node

/-- The leaves that are parts of the node itself, those of its children left aside. -/
def ownLeaves : Node → List Leaf
  | stmt (.assignment _ target _ _) => [.target target]
  | expr (.number value span) => [.number value span]
  | expr (.string value span) => [.string value span]
  | expr (.name n) => [.name n]
  | expr (.unary command _ _) => [.command command]
  | expr (.binary _ _ command _ _) => [.command command]
  | stmt (.control c) | expr (.control c) => c.ownLeaves
  | _ => []

/-- All that a node and the nodes below it hold. -/
def leaves (n : Node) : List Leaf := n.walk.flatMap ownLeaves

/-- The leaves of a node are its own and then those of its children. -/
theorem leaves_eq (n : Node) : n.leaves = n.ownLeaves ++ n.children.flatMap leaves := by
  unfold leaves
  rw [walk_eq, List.flatMap_cons, List.flatMap_assoc]

end Node

/-- The leaves of a loop header. -/
def ForHeader.leaves (header : ForHeader) : List Leaf :=
  header.ownLeaves ++ (header.parts.map .expr).flatMap Node.leaves

/-- The leaves of a construct, be it a statement or an expression. -/
def Control.leaves (c : Control) : List Leaf := c.ownLeaves ++ c.children.flatMap Node.leaves

/-! ## Leaves and tokens -/

/-- The leaves hold some of the tokens, each leaf one of them, and the other tokens are no code. -/
inductive Covers : List Leaf → List Token → Prop
  | nil : Covers [] []
  | leaf {l : Leaf} {t : Token} {ls : List Leaf} {ts : List Token} (h : l.IsOf t)
    (others : Covers ls ts) : Covers (l :: ls) (t :: ts)
  | pass {t : Token} {ls : List Leaf} {ts : List Token} (h : t.kind.isCode = false)
    (others : Covers ls ts) : Covers ls (t :: ts)
  | perm {ls ms : List Leaf} {ts : List Token} (h : ls.Perm ms) (same : Covers ls ts) : Covers ms ts

namespace Covers

variable {ls ms : List Leaf} {ts us : List Token}

/-- Tokens one behind the other have the leaves of both. -/
theorem append (h : Covers ls ts) (hus : Covers ms us) : Covers (ls ++ ms) (ts ++ us) := by
  induction h with
  | nil => exact hus
  | leaf h _ ih => exact .leaf h ih
  | pass h _ ih => exact .pass h ih
  | perm h _ ih => exact .perm (h.append_right ms) ih

/-- Every leaf holds one of the tokens. -/
theorem exists_token (h : Covers ls ts) {l : Leaf} (hl : l ∈ ls) : ∃ t ∈ ts, l.IsOf t := by
  induction h with
  | nil => cases hl
  | @leaf first t _ _ hfirst _ ih =>
    rcases List.mem_cons.1 hl with rfl | hl
    · exact ⟨t, List.mem_cons_self, hfirst⟩
    · rcases ih hl with ⟨u, hu, hof⟩
      exact ⟨u, List.mem_cons_of_mem _ hu, hof⟩
  | pass _ _ ih =>
    rcases ih hl with ⟨u, hu, hof⟩
    exact ⟨u, List.mem_cons_of_mem _ hu, hof⟩
  | perm h _ ih => exact ih (h.mem_iff.2 hl)

/-- If no two tokens stand at the same place, exactly one leaf stands where a token of code
does, and it holds this token. -/
theorem filter_span (h : Covers ls ts) (hplaces : ts.Pairwise fun t u => t.span ≠ u.span)
    {t : Token} (ht : t ∈ ts) (hcode : t.kind.isCode = true) :
    ∃ l, l.IsOf t ∧ ls.filter (fun l => l.span = t.span) = [l] := by
  -- Tokens have places of their own, so a leaf is told by its span.
  induction h with
  | nil => cases ht
  | @leaf first u ls ts hfirst others ih =>
    rw [List.pairwise_cons] at hplaces
    rcases List.mem_cons.1 ht with rfl | ht
    · -- The other leaves hold tokens that stand at other places.
      have hothers : ls.filter (fun l => l.span = t.span) = [] := by
        rw [List.filter_eq_nil_iff]
        intro l hl hspan
        rcases others.exists_token hl with ⟨u, hu, hof⟩
        exact hplaces.1 u hu ((of_decide_eq_true hspan).symm.trans hof.span_eq)
      exact ⟨first, hfirst, by simp [hfirst.span_eq, hothers]⟩
    · rcases ih hplaces.2 ht with ⟨l, hof, hfilter⟩
      have hne : first.span ≠ t.span := by
        rw [hfirst.span_eq]
        exact hplaces.1 t ht
      exact ⟨l, hof, by simp [hne, hfilter]⟩
  | @pass u ls ts hu _ ih =>
    rw [List.pairwise_cons] at hplaces
    rcases List.mem_cons.1 ht with rfl | ht
    · rw [hu] at hcode
      cases hcode
    · exact ih hplaces.2 ht
  | perm h _ ih =>
    rcases ih hplaces ht with ⟨l, hof, hfilter⟩
    have hperm := h.filter fun l : Leaf => l.span = t.span
    rw [hfilter] at hperm
    exact ⟨l, hof, List.perm_singleton.1 hperm.symm⟩

end Covers

namespace Parse

/-! ## Brackets and separators -/

/-- Nested tokens stand one behind the other. -/
theorem Nested.append {ts us : List Token} (h : Nested ts) (hus : Nested us) :
    Nested (ts ++ us) := by
  induction h with
  | nil => exact hus
  | inner h _ ih => exact .inner h ih
  | group h inside _ _ ih =>
    rw [List.append_assoc, List.cons_append]
    exact .group h inside ih

/-- What closes an opener is a closer. -/
theorem closesGroup_of_closer? {k c : Kind} (h : k.closer? = some c) : c.closesGroup = true := by
  cases k <;> simp_all [Kind.closer?] <;> subst h <;> rfl

/-- A comma is a separator. -/
theorem ne_comma_of_not_separator {k : Kind} (h : k.isSeparator = false) : k ≠ .comma := by
  rintro rfl
  cases h

/-- Tokens whose brackets are properly nested and that have separators only inside of brackets. -/
inductive Solid : List Token → Prop
  | nil : Solid []
  | inner {t : Token} {ts : List Token} (h : t.kind.isInner = true)
    (hseparator : t.kind.isSeparator = false) (others : Solid ts) : Solid (t :: ts)
  | group {first last : Token} {ts us : List Token} (h : first.kind.closer? = some last.kind)
    (inside : Nested ts) (others : Solid us) : Solid (first :: ts ++ last :: us)

namespace Solid

variable {ts us : List Token}

/-- Solid tokens are nested. -/
theorem nested (h : Solid ts) : Nested ts := by
  induction h with
  | nil => exact .nil
  | inner h _ _ ih => exact .inner h ih
  | group h inside _ ih => exact .group h inside ih

/-- Solid tokens stand one behind the other. -/
theorem append (h : Solid ts) (hus : Solid us) : Solid (ts ++ us) := by
  induction h with
  | nil => exact hus
  | inner h hseparator _ ih => exact .inner h hseparator ih
  | group h inside _ ih =>
    rw [List.append_assoc, List.cons_append]
    exact .group h inside ih

end Solid

/-- What stands between two brackets, or statements with their separators: all code of the tokens
is in these leaves. -/
structure Holds (ls : List Leaf) (ts : List Token) : Prop where
  nested : Nested ts
  covers : Covers ls ts

namespace Holds

variable {ls ms : List Leaf} {ts us : List Token}

theorem nil : Holds [] [] := ⟨.nil, .nil⟩

/-- So do tokens that hold leaves. -/
theorem append (h : Holds ls ts) (hus : Holds ms us) : Holds (ls ++ ms) (ts ++ us) :=
  ⟨h.nested.append hus.nested, h.covers.append hus.covers⟩

/-- Separators hold no leaf. -/
theorem separators (h : ∀ t ∈ ts, t.kind.isSeparator = true) : Holds [] ts := by
  induction ts with
  | nil => exact nil
  | cons t ts ih =>
    have hseparator := h t List.mem_cons_self
    have hothers := ih fun u hu => h u (List.mem_cons_of_mem t hu)
    have hkind : t.kind.isInner = true ∧ t.kind.isCode = false := by
      revert hseparator
      cases t.kind <;> decide
    exact ⟨.inner hkind.1 hothers.nested, .pass hkind.2 hothers.covers⟩

end Holds

/-- The tokens of a part of a script: all their code is in these leaves, and they begin and end
with the part. -/
structure Accounts (ls : List Leaf) (ts : List Token) : Prop where
  solid : Solid ts
  covers : Covers ls ts

namespace Accounts

variable {ls ms : List Leaf} {ts us : List Token} {t : Token}

theorem nil : Accounts [] [] := ⟨.nil, .nil⟩

/-- So do tokens that leaves account for. -/
theorem append (h : Accounts ls ts) (hus : Accounts ms us) : Accounts (ls ++ ms) (ts ++ us) :=
  ⟨h.solid.append hus.solid, h.covers.append hus.covers⟩

/-- The order of the leaves does not matter. -/
theorem perm (h : Accounts ls ts) (hperm : ls.Perm ms) : Accounts ms ts :=
  ⟨h.solid, .perm hperm h.covers⟩

/-- A token that a leaf holds. -/
theorem leaf {l : Leaf} (hinner : t.kind.isInner = true) (hseparator : t.kind.isSeparator = false)
    (hof : l.IsOf t) (h : Accounts ls ts) : Accounts (l :: ls) (t :: ts) :=
  ⟨.inner hinner hseparator h.solid, .leaf hof h.covers⟩

/-- A token that only gives the code its shape. -/
theorem shape {k : Kind} (ht : t.kind = k) (hshape : k.isShape = true) (h : Accounts ls ts) :
    Accounts ls (t :: ts) := by
  subst ht
  simp only [Kind.isShape, Bool.and_eq_true, Bool.not_eq_true'] at hshape
  exact ⟨.inner hshape.1.1 hshape.1.2 h.solid, .pass hshape.2 h.covers⟩

/-- Brackets are no code. -/
theorem isCode_of_closer? {k c : Kind} (h : k.closer? = some c) :
    k.isCode = false ∧ c.isCode = false := by
  cases k <;> simp_all [Kind.closer?] <;> subst h <;> decide

/-- Tokens in brackets. -/
theorem group {first last : Token} (h : first.kind.closer? = some last.kind)
    (hinside : Holds ls ts) : Accounts ls (first :: ts ++ [last]) := by
  rcases isCode_of_closer? h with ⟨hfirst, hlast⟩
  refine ⟨.group h hinside.nested .nil, ?_⟩
  have hcovers := hinside.covers.append (.pass hlast .nil)
  rw [List.append_nil] at hcovers
  exact .pass hfirst hcovers

/-- Solid tokens hold the leaves that they account for. -/
theorem holds (h : Accounts ls ts) : Holds ls ts := ⟨h.solid.nested, h.covers⟩

end Accounts

/-! ## Loop headers -/

/-- Whether a loop header in brackets, from some place in it on, starts no more than `left` further
parts, and no `#` stands behind it. `fresh` tells that a part may start here, and `depth` counts the
brackets that are open within the header. -/
def headerFits (left : Nat) (fresh : Bool) : Nat → List Token → Bool
  | _, [] => true
  | depth + 1, t :: ts =>
    if t.kind.opensGroup then headerFits left fresh (depth + 2) ts
    else if t.kind.closesGroup then headerFits left fresh depth ts
    else headerFits left fresh (depth + 1) ts
  | 0, t :: ts =>
    if t.kind.closesGroup then !ts.head?.any fun u => u.kind = .hash
    else if t.kind = .comma then headerFits left true 0 ts
    else if fresh && left = 0 then false
    else headerFits (if fresh then left - 1 else left) false (if t.kind.opensGroup then 1 else 0) ts

/-- Every loop header in brackets has at most three parts and is not an operand of a `#`. -/
def headersFit : List Token → Bool
  | [] => true
  | t :: ts =>
    (match ts with
      | bracket :: header =>
        if t.kind = .forWord && bracket.kind = .openBracket then headerFits 3 true 0 header
        else true
      | [] => true) && headersFit ts

/-- Commas inside of brackets do not separate parts of a header. -/
theorem headerFits_nested {ts : List Token} (h : Nested ts) (left : Nat) (fresh : Bool)
    (depth : Nat) (us : List Token) :
    headerFits left fresh (depth + 1) (ts ++ us) = headerFits left fresh (depth + 1) us := by
  induction h generalizing depth us with
  | nil => rfl
  | inner h _ ih =>
    rcases isInner_iff.1 h with ⟨hopens, hcloses, -⟩
    rw [List.cons_append, headerFits, hopens, hcloses]
    exact ih depth us
  | @group first last ts vs h _ _ ihInside ihOthers =>
    have hopens : first.kind.opensGroup = true := (Kind.opensGroup_iff _).2 ⟨_, h⟩
    have hcloses := closesGroup_of_closer? h
    have hcloserOpens := not_opens_of_closes hcloses
    rw [List.append_assoc, List.cons_append, headerFits, if_pos hopens, ihInside,
      List.cons_append, headerFits, hcloserOpens, hcloses]
    exact ihOthers depth us

/-- A part of a header has no comma of its own. -/
theorem headerFits_solid {ts : List Token} (h : Solid ts) (left : Nat) (us : List Token) :
    headerFits left false 0 (ts ++ us) = headerFits left false 0 us := by
  -- A part is made of single tokens and of groups in brackets.
  induction h with
  | nil => rfl
  | @inner t ts h hseparator _ ih =>
    rcases isInner_iff.1 h with ⟨hopens, hcloses, -⟩
    have hcomma := ne_comma_of_not_separator hseparator
    rw [List.cons_append, headerFits, hcloses, hopens]
    simpa [hcomma] using ih
  | @group first last ts vs h hinside _ ih =>
    have hopens : first.kind.opensGroup = true := (Kind.opensGroup_iff _).2 ⟨_, h⟩
    have hcloses := not_closes_of_opens hopens
    have hcomma := ne_comma_of_not_separator (not_separator_of_opens hopens)
    have hlast := closesGroup_of_closer? h
    rw [List.append_assoc, List.cons_append, headerFits, hcloses, hopens]
    simp only [hcomma, Bool.false_and, Bool.false_eq_true, if_false, if_true]
    rw [headerFits_nested hinside, List.cons_append, headerFits, not_opens_of_closes hlast, hlast]
    exact ih

/-- A part of a header counts once. -/
theorem headerFits_part {ts : List Token} (h : Solid ts) (hne : ts ≠ []) {left : Nat}
    {us : List Token} (hfits : headerFits left true 0 (ts ++ us) = true) :
    0 < left ∧ headerFits (left - 1) false 0 us = true := by
  -- Only the first token of the part differs from the others.
  have hstep (t : Token) (vs : List Token) (hcloses : t.kind.closesGroup = false)
      (hseparator : t.kind.isSeparator = false)
      (hvs : headerFits left true 0 (t :: vs) = true) :
      0 < left ∧ headerFits (left - 1) false 0 (t :: vs) = true := by
    have hcomma := ne_comma_of_not_separator hseparator
    rw [headerFits] at hvs ⊢
    simp only [hcloses, hcomma, Bool.false_eq_true, if_false, Bool.true_and, if_true,
      decide_eq_true_eq] at hvs
    split at hvs
    · cases hvs
    · next hleft => exact ⟨Nat.pos_of_ne_zero hleft, by simpa [hcloses, hcomma] using hvs⟩
  have hall (hsolid : Solid ts)
      (hboth : 0 < left ∧ headerFits (left - 1) false 0 (ts ++ us) = true) :
      0 < left ∧ headerFits (left - 1) false 0 us = true := by
    rwa [headerFits_solid hsolid] at hboth
  refine hall h ?_
  cases h with
  | nil => exact absurd rfl hne
  | inner h hseparator _ =>
    exact hstep _ _ (isInner_iff.1 h).2.1 hseparator hfits
  | group h _ _ =>
    have hopens := (Kind.opensGroup_iff _).2 ⟨_, h⟩
    rw [List.append_assoc, List.cons_append] at hfits ⊢
    exact hstep _ _ (not_closes_of_opens hopens) (not_separator_of_opens hopens) hfits

/-- Behind a header that fits there is no `#`. -/
theorem ne_hash_of_headerFits {closer : Token} (hcloser : closer.kind.closesGroup = true)
    {left : Nat} {fresh : Bool} {us : List Token}
    (h : headerFits left fresh 0 (closer :: us) = true) {t : Token} {vs : List Token}
    (hus : us = t :: vs) : t.kind ≠ .hash := by
  subst hus
  intro hhash
  simp [headerFits, hcloser, hhash] at h

/-- Behind a comma the next part starts. -/
theorem headerFits_comma {comma : Token} (hcomma : comma.kind = .comma) (left : Nat)
    (fresh : Bool) (us : List Token) :
    headerFits left fresh 0 (comma :: us) = headerFits left true 0 us := by
  simp [headerFits, hcomma, Kind.closesGroup]

/-- If all headers fit, so do those that are still to be read. -/
theorem headersFit_suffix {ts us : List Token} (hsuffix : us <:+ ts) (h : headersFit ts = true) :
    headersFit us = true := by
  rcases hsuffix with ⟨front, rfl⟩
  induction front with
  | nil => exact h
  | cons t front ih =>
    rw [List.cons_append, headersFit.eq_def, Bool.and_eq_true] at h
    exact ih h.2

/-- Of a header that fits, the tokens up to some place fit. -/
theorem headerFits_of_append {ts us : List Token} {left : Nat} {fresh : Bool} {depth : Nat}
    (h : headerFits left fresh depth (ts ++ us) = true) :
    headerFits left fresh depth ts = true := by
  -- The header may end within these tokens or be cut off by their end; both are fine.
  induction ts generalizing left fresh depth with
  | nil => cases depth <;> rfl
  | cons t ts ih =>
    rw [List.cons_append, headerFits.eq_def] at h
    rw [headerFits.eq_def]
    cases depth with
    | zero =>
      dsimp only at h ⊢
      split at h
      · next hcloses =>
        rw [if_pos hcloses]
        cases ts with
        | nil => rfl
        | cons u ts => exact h
      · next hcloses =>
        rw [if_neg hcloses]
        split at h
        · next hcomma =>
          rw [if_pos hcomma]
          exact ih h
        · next hcomma =>
          rw [if_neg hcomma]
          split at h
          · cases h
          · next hpart =>
            rw [if_neg hpart]
            exact ih h
    | succ depth =>
      dsimp only at h ⊢
      split at h
      · next hopens =>
        rw [if_pos hopens]
        exact ih h
      · next hopens =>
        rw [if_neg hopens]
        split at h
        · next hcloses =>
          rw [if_pos hcloses]
          exact ih h
        · next hcloses =>
          rw [if_neg hcloses]
          exact ih h

/-- If all headers fit, so do those that have been read. -/
theorem headersFit_of_append {ts us : List Token} (h : headersFit (ts ++ us) = true) :
    headersFit ts = true := by
  induction ts with
  | nil => rfl
  | cons t ts ih =>
    rw [List.cons_append, headersFit.eq_def, Bool.and_eq_true] at h
    rw [headersFit.eq_def, Bool.and_eq_true]
    refine ⟨?_, ih h.2⟩
    cases ts with
    | nil => rfl
    | cons bracket header =>
      have hfirst := h.1
      simp only [List.cons_append] at hfirst ⊢
      split at hfirst
      · next hheader =>
        rw [if_pos hheader]
        exact headerFits_of_append hfirst
      · next hheader => rw [if_neg hheader]

end Parse

end Sqf
