import Sqf.Proofs.Parse.Progress
import Sqf.Proofs.Parse.Reaches
import Sqf.Proofs.Tree.Node

/-!
# What is read between two states

`Passage` says how nodes come from the tokens between two states. It has one rule for each way in
which the parsers put nodes together, and rules for placeholders, each of which is tied to a
diagnostic that was reported. All that a parser gives is read in this way (`statements_read`), so
what the rules keep holds of every tree.
-/

namespace Sqf

/-! ## Nodes -/

namespace Node

/-- A number, a string or a name that stands for itself: a node that is one token. -/
def isAtom : Node → Bool
  | expr (.number _ _) | expr (.string _ _) | expr (.name _) => true
  | _ => false

/-- The construct that a node is, as a statement or as an expression. -/
def control? : Node → Option Control
  | stmt (.control c) | expr (.control c) => some c
  | _ => none

/-- A literal or a name is a leaf, and no placeholder. -/
theorem leaf_of_isAtom {n : Node} (h : n.isAtom = true) :
    n.children = [] ∧ n.isError = false := by
  unfold isAtom at h
  split at h
  · exact ⟨rfl, rfl⟩
  · exact ⟨rfl, rfl⟩
  · exact ⟨rfl, rfl⟩
  · cases h

/-- A placeholder has no children. -/
theorem children_of_isError {n : Node} (h : n.isError = true) : n.children = [] := by
  unfold isError at h
  split at h
  · rfl
  · rfl
  · cases h

/-- A construct is a statement or an operand. -/
theorem eq_of_control? {n : Node} {c : Control} (h : n.control? = some c) :
    n = stmt (.control c) ∨ n = expr (.control c) := by
  unfold control? at h
  split at h
  · cases h
    exact .inl rfl
  · cases h
    exact .inr rfl
  · cases h

/-- It is no placeholder. -/
theorem isError_of_control? {n : Node} {c : Control} (h : n.control? = some c) :
    n.isError = false := by
  rcases eq_of_control? h with rfl | rfl <;> rfl

/-- Its children are those of the construct. -/
theorem children_of_control? {n : Node} {c : Control} (h : n.control? = some c) :
    n.children = c.children := by
  rcases eq_of_control? h with rfl | rfl <;> rfl

/-- So is its span. -/
theorem span_of_control? {n : Node} {c : Control} (h : n.control? = some c) :
    n.span = c.span := by
  rcases eq_of_control? h with rfl | rfl <;> rfl

end Node

namespace Parse

/-- The node of an expression that may be absent. -/
def exprNodes (e : Option Expr) : List Node := e.toList.map .expr

/-- The node of a block that may be absent. -/
def blockNodes (b : Option Block) : List Node := b.toList.map .block

/-! ## The rules -/

/-- On the way from one state to another, the next token of the state `u` is reported. -/
structure Reported (s : State) (d : Diagnostic) (u t : State) : Prop where
  reaches : s.Reaches u
  span : d.span = u.token.span
  behind : (report d u).next.Reaches t

namespace Reported

variable {s u t : State} {d : Diagnostic}

/-- What is passed over is reached by way of its report. -/
theorem reaches_end (h : Reported s d u t) : s.Reaches t :=
  (h.reaches.report d).trans h.behind

/-- What is reported is one diagnostic more. -/
theorem size_lt (h : Reported s d u t) : s.diagnostics.size < t.diagnostics.size := by
  have hle := h.reaches.size_le
  have hbehind := h.behind.size_le
  rw [next_report, Array.size_push] at hbehind
  omega

/-- The report is kept. -/
theorem mem (h : Reported s d u t) : d ∈ t.diagnostics.toList := by
  refine h.behind.diagnostics.mem ?_
  rw [next_report, Array.toList_push]
  exact List.mem_append_right _ List.mem_cons_self

end Reported

/-- What nodes are read as: each for itself, or as the parts of a construct. Among parts a
placeholder may have the span of a token that is not read. -/
inductive Manner where
  | whole
  | parts

/-- These nodes are read on the way from one state to another. -/
inductive Passage : Manner → State → List Node → State → Prop where
  | pass {m : Manner} {s t : State} (h : s.Reaches t) : Passage m s [] t
  | append {m : Manner} {s t u : State} {ns ms : List Node} (h : Passage m s ns t)
      (h' : Passage m t ms u) : Passage m s (ns ++ ms) u
  /-- Some nodes are thrown away. -/
  | sublist {m : Manner} {s t : State} {ns ms : List Node} (h : Passage m s ns t)
      (hsub : ms.Sublist ns) : Passage m s ms t
  | part {s t : State} {ns : List Node} (h : Passage .whole s ns t) : Passage .parts s ns t
  /-- A placeholder for tokens that are passed over. Either some of them stand behind the token
  that is reported, or nothing is passed over, or a statement ends where it fails. -/
  | skipped {s t u : State} {d : Diagnostic} {n : Node} (hn : n.isError = true)
      (hspan : n.span = s.region t) (hreported : Reported s d u t)
      (hends : t.rest = u.rest → t.rest = s.rest ∨ t.kind = .endOfInput ∨ t.kind = .closeCurly) :
      Passage .whole s [n] t
  /-- A placeholder for a branch that cannot be read. -/
  | failed {s : State} {d : Diagnostic} (hspan : d.span = s.token.span) :
      Passage .parts s [.expr (.error d.span)] (report d s).next
  | atom {s : State} {n : Node} (hn : n.isAtom = true) (hspan : n.span = s.token.span) :
      Passage .whole s [n] (advance s).next
  | array {s t : State} {es : List Expr} (h : Passage .whole (advance s).next (es.map .expr) t) :
      Passage .whole s [.expr (.array es ((advance t).next.spanFrom s.token.span))] (advance t).next
  | unary {s t : State} {operand : Expr} (h : Passage .whole (advance s).next [.expr operand] t) :
      Passage .whole s [.expr (applied s.token operand)] t
  | binary {s t u : State} {left right : Expr} (h : Passage .whole s [.expr left] t)
      (h' : Passage .whole (advance t).next [.expr right] u) :
      Passage .whole s [.expr (joined t.token left right)] u
  | control {s t : State} {c : Control} {n : Node} (hn : n.control? = some c)
      (hspan : c.span = t.spanFrom s.token.span)
      (h : Passage .parts (advance s).next c.children t) : Passage .whole s [n] t
  /-- Written `if` with a condition that cannot be read, and without a branch behind it. -/
  | unbranched {s t u : State} {d : Diagnostic} {n : Node}
      (hn : n.control? = some (.ifThen none .thenBranch (.error (.point t.token.span.start)) none
        (t.spanFrom s.token.span)))
      (hreported : Reported (advance s).next d u t) : Passage .whole s [n] t
  | expression {s t : State} {e : Expr} (h : Passage .whole s [.expr e] t) :
      Passage .whole s [.stmt (.expression e)] t
  | assignment {s t : State} {isPrivate : Bool} {target : Name} {value : Expr}
      (h : Passage .whole (advance s).next [.expr value] t) :
      Passage .whole s [.stmt (.assignment isPrivate target value (s.token.span.join value.span))] t
  /-- A block takes its number before the blocks inside of it. -/
  | block {s t u v : State} {id : Nat} {ss : List Stmt} (hopened : s.Reaches t)
      (hid : s.nextId ≤ id) (hlt : id < t.nextId) (h : Passage .whole t (ss.map .stmt) u)
      (hclosed : u.Reaches v) (hread : v.rest.length < s.rest.length) :
      Passage .whole s [.block ⟨id, ss, v.spanFrom s.token.span⟩] v
  | blockExpr {s t : State} {b : Block} (h : Passage .whole s [.block b] t) :
      Passage .whole s [.expr (.block b)] t

/-- The state behind a passage is reached from the one before it. -/
theorem Passage.reaches {m : Manner} {s t : State} {ns : List Node} (h : Passage m s ns t) :
    s.Reaches t := by
  induction h with
  | pass h => exact h
  | append _ _ ih ih' => exact ih.trans ih'
  | sublist _ _ ih => exact ih
  | part _ ih => exact ih
  | skipped _ _ hreported _ => exact hreported.reaches_end
  | @failed s d _ => exact reaches_report d s
  | @atom s _ _ _ => exact reaches_advance s
  | @array s _ _ _ ih => exact ((reaches_advance s).trans ih).advance
  | @unary s _ _ _ ih => exact (reaches_advance s).trans ih
  | binary _ _ ih ih' => exact ih.advance.trans ih'
  | @control s _ _ _ _ _ _ ih => exact (reaches_advance s).trans ih
  | @unbranched s _ _ _ _ _ hreported =>
    exact (reaches_advance s).trans hreported.reaches_end
  | expression _ ih => exact ih
  | @assignment s _ _ _ _ _ ih => exact (reaches_advance s).trans ih
  | block hopened _ _ _ hclosed _ ih => exact hopened.trans (ih.trans hclosed)
  | blockExpr _ ih => exact ih

/-- The elements of an array are read on the way on which it is. -/
theorem Passage.elements {m : Manner} {s t : State} {ns : List Node} (h : Passage m s ns t)
    {es : List Expr} {span : Span} (hmem : .expr (.array es span) ∈ ns) :
    Passage m s (es.map .expr) t := by
  induction h with
  | pass _ => cases hmem
  | append h h' ih ih' =>
    rcases List.mem_append.1 hmem with hmem | hmem
    · simpa using (ih hmem).append (.pass h'.reaches)
    · exact (Passage.pass h.reaches).append (ih' hmem)
  | sublist _ hsub ih => exact ih (hsub.subset hmem)
  | part _ ih => exact .part (ih hmem)
  | skipped hn _ _ _ =>
    obtain rfl := List.mem_singleton.1 hmem
    cases hn
  | @atom s _ hn _ =>
    obtain rfl := List.mem_singleton.1 hmem
    cases hn
  | @array s t _ h _ =>
    -- Only the rule for arrays makes one, and there the elements stand between its brackets.
    cases List.mem_singleton.1 hmem
    have hinside := (Passage.pass (reaches_advance s)).append h
    simpa using hinside.append (.pass (reaches_advance t))
  | control hn _ _ _ =>
    obtain rfl := List.mem_singleton.1 hmem
    cases hn
  | unbranched hn _ =>
    obtain rfl := List.mem_singleton.1 hmem
    cases hn
  | failed _ => cases List.mem_singleton.1 hmem
  | unary _ _ => cases List.mem_singleton.1 hmem
  | binary _ _ _ _ => cases List.mem_singleton.1 hmem
  | expression _ _ => cases List.mem_singleton.1 hmem
  | assignment _ _ => cases List.mem_singleton.1 hmem
  | block _ _ _ _ _ _ _ => cases List.mem_singleton.1 hmem
  | blockExpr _ _ => cases List.mem_singleton.1 hmem

/-- Induction on what is read, for what a node that is no placeholder has from its children. -/
@[elab_as_elim]
theorem Passage.children_induction
    {motive : (m : Manner) → (s : State) → (ns : List Node) → (t : State) → Passage m s ns t → Prop}
    (pass : ∀ {m s t} (h : s.Reaches t), motive m s [] t (.pass h))
    (append : ∀ {m s t u ns ms} (h : Passage m s ns t) (h' : Passage m t ms u),
      motive m s ns t h → motive m t ms u h' → motive m s (ns ++ ms) u (h.append h'))
    (sublist : ∀ {m s t ns ms} (h : Passage m s ns t) (hsub : ms.Sublist ns),
      motive m s ns t h → motive m s ms t (h.sublist hsub))
    (part : ∀ {s t ns} (h : Passage .whole s ns t),
      motive .whole s ns t h → motive .parts s ns t (.part h))
    (skipped : ∀ {s t u d n} (hn : n.isError = true) (hspan : n.span = s.region t)
      (hreported : Reported s d u t)
      (hends : t.rest = u.rest → t.rest = s.rest ∨ t.kind = .endOfInput ∨ t.kind = .closeCurly),
      motive .whole s [n] t (.skipped hn hspan hreported hends))
    (failed : ∀ {s : State} {d : Diagnostic} (hspan : d.span = s.token.span),
      motive .parts s [.expr (.error d.span)] (report d s).next (.failed hspan))
    (unbranched : ∀ {s t u d n}
      (hn : n.control? = some (.ifThen none .thenBranch (.error (.point t.token.span.start)) none
        (t.spanFrom s.token.span)))
      (hreported : Reported (advance s).next d u t),
      motive .whole s [n] t (.unbranched hn hreported))
    (node : ∀ {m s t u v n} (h : Passage m t n.children u) (h' : Passage .whole s [n] v),
      n.isError = false → s.Reaches t → u.Reaches v → motive m t n.children u h →
        motive .whole s [n] v h')
    (blockExpr : ∀ {s t b} (h : Passage .whole s [.block b] t),
      motive .whole s [.block b] t h → motive .whole s [.expr (.block b)] t (.blockExpr h))
    {m : Manner} {s : State} {ns : List Node} {t : State} (h : Passage m s ns t) :
    motive m s ns t h := by
  -- The rules make their nodes of parts; as a motive is about a list of nodes, equal lists may be
  -- exchanged in it.
  have hsame : ∀ {m s t ns ms} (hns : ns = ms) (h : Passage m s ns t),
      motive m s ns t h → motive m s ms t (hns ▸ h) := by
    rintro m s t ns _ rfl h hm
    exact hm
  induction h with
  | pass h => exact pass h
  | append h h' ih ih' => exact append h h' ih ih'
  | sublist h hsub ih => exact sublist h hsub ih
  | part h ih => exact part h ih
  | skipped hn hspan hreported hends => exact skipped hn hspan hreported hends
  | failed hspan => exact failed hspan
  | @atom s n hn hspan =>
    obtain ⟨hchildren, herror⟩ := Node.leaf_of_isAtom hn
    have hbelow : motive .whole s n.children s (hchildren ▸ .pass .refl) :=
      hsame hchildren.symm _ (pass .refl)
    exact node _ _ herror .refl (reaches_advance s) hbelow
  | @array s t es h ih =>
    exact node h _ rfl (reaches_advance s) (reaches_advance t) ih
  | @unary s t operand h ih => exact node h _ rfl (reaches_advance s) .refl ih
  | @binary s t u left right h h' ih ih' =>
    have hbehind := (Passage.pass (reaches_advance t)).append h'
    have hoperands : motive .whole s ([.expr left] ++ ([] ++ [.expr right])) u (h.append hbehind) :=
      append h hbehind ih (append _ h' (pass (reaches_advance t)) ih')
    exact node (n := .expr (joined t.token left right)) _ _ rfl .refl .refl hoperands
  | @control s t c n hn hspan h ih =>
    have hparts := hsame (Node.children_of_control? hn).symm h ih
    exact node _ _ (Node.isError_of_control? hn) (reaches_advance s) .refl hparts
  | unbranched hn hreported => exact unbranched hn hreported
  | expression h ih => exact node h _ rfl .refl .refl ih
  | @assignment s t _ _ _ h ih => exact node h _ rfl (reaches_advance s) .refl ih
  | block hopened hid hlt h hclosed hread ih => exact node h _ rfl hopened hclosed ih
  | blockExpr h ih => exact blockExpr h ih

end Parse

end Sqf
