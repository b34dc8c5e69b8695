import Sqf.Proofs.Check.Steps
import Sqf.Proofs.Scope
import Sqf.Tree.Node

/-!
# The scopes of a tree

A check opens a scope for each code block, and one for each loop with a header of
three parts that does not start with a block. Where a scope begins and ends is read
off the tree alone: `Node.outline` lists the scopes below a node, each with the
scope around it, and `Node.moves` says how a walk goes in and out of them, with a
stack of those it is in. `scopes_mirror_tree` shows that the checker leaves just
these scopes. The checker itself has no stack: it passes its scope along as it goes
down, and so the stack is one of the moves.
-/

namespace Sqf

/-- What a scope is opened for. -/
inductive Opener where
  | block (b : Block)
  /-- A loop with a header of three parts that does not start with a block. -/
  | loop (body : Option Block)

namespace Opener

/-- The number of the scope. -/
def id : Opener → Nat
  | block b => b.id
  | loop (some b) => b.id
  | loop none => 0

def block? : Opener → Option Block
  | block b => some b
  | loop _ => none

end Opener

namespace Control

/-- The scope that a construct has as a whole, and the nodes that stand directly in it. If a loop
header starts with a block, the scope of this block is the one of the loop. -/
def scope? : Control → Option (Opener × List Node)
  | forDo (.classic (some (.block b)) condition step) body _ =>
    some (.block b, b.statements.map .stmt ++ ((condition.toList ++ step.toList).map .expr ++
      body.toList.map .block))
  | forDo (.classic init condition step) body _ =>
    some (.loop body, (init.toList ++ condition.toList ++ step.toList).map .expr ++
      body.toList.map .block)
  | _ => none

/-- A loop with a header of three parts that does not start with a block. -/
def loop? : Control → Option Opener
  | forDo (.classic (some (.block _)) _ _) _ _ => none
  | forDo (.classic _ _ _) body _ => some (.loop body)
  | _ => none

end Control

namespace Node

/-- The code block that a node is. -/
def block? : Node → Option Block
  | block b | expr (.block b) => some b
  | _ => none

/-- What of a node a scope is opened for, the parts below left aside. -/
def opener? : Node → Option Opener
  | block b | expr (.block b) => some (.block b)
  | stmt (.control c) | expr (.control c) => c.loop?
  | _ => none

/-- The scope that a node has as a whole, and the nodes that stand directly in it. -/
def scope? : Node → Option (Opener × List Node)
  | block b | expr (.block b) => some (.block b, b.statements.map stmt)
  | stmt (.control c) | expr (.control c) => c.scope?
  | _ => none

/-- What stands in the scope of a loop is smaller than the loop. -/
theorem size_lt_of_mem_scope_control {c : Control} {o : Opener} {inside : List Node} {m : Node}
    (h : c.scope? = some (o, inside)) (hm : m ∈ inside) : m.size < sizeOf c := by
  unfold Control.scope? at h
  -- A loop that starts with a block has the statements of this block in its scope, any other loop
  -- its parts.
  split at h
  · next b condition step body span =>
    cases h
    rcases List.mem_append.1 hm with hm | hm
    · have := size_lt_of_mem_block hm
      simp
      omega
    · exact size_lt_of_mem_control
        (c := .forDo (.classic (some (.block b)) condition step) body span)
        (List.mem_append.2 ((List.mem_append.1 hm).imp (List.mem_cons_of_mem _) id))
  · next init condition step body span hinit =>
    cases h
    exact size_lt_of_mem_control (c := .forDo (.classic init condition step) body span) hm
  · cases h

/-- What stands in the scope of a node is smaller than the node. -/
theorem size_lt_of_mem_scope {n m : Node} {o : Opener} {inside : List Node}
    (h : n.scope? = some (o, inside)) (hm : m ∈ inside) : m.size < n.size := by
  unfold scope? at h
  -- A block, be it a node or an expression, has its statements inside; a construct may be a loop.
  split at h
  · cases h
    exact size_lt_of_mem_block hm
  · cases h
    have := size_lt_of_mem_block hm
    simp [size] at this ⊢
    omega
  · have := size_lt_of_mem_scope_control h hm
    simp [size] at this ⊢
    omega
  · have := size_lt_of_mem_scope_control h hm
    simp [size] at this ⊢
    omega
  · cases h

/-- The scopes of a node and of all below it in the order in which they are opened, each with the
index of the scope around it. The node stands in the scope at index `here`, and scopes are
numbered from `next` on. -/
def outline (here next : Nat) (n : Node) : List (Opener × Nat) :=
  match _h : n.scope? with
  | some (o, inside) => inside.attach.foldl
      (fun found ⟨m, _⟩ => found ++ m.outline next (next + found.length)) [(o, here)]
  | none => n.children.attach.foldl
      (fun found ⟨m, _⟩ => found ++ m.outline here (next + found.length)) []
termination_by n.size
decreasing_by
  · exact size_lt_of_mem_scope ‹_› ‹_›
  · exact size_lt_of_mem_children ‹_›

/-- The scopes of nodes that stand in one scope, behind others that were found before. -/
def outlines (here next : Nat) (found : List (Opener × Nat)) (ns : List Node) :
    List (Opener × Nat) :=
  ns.foldl (fun found m => found ++ m.outline here (next + found.length)) found

/-- A node with a scope of its own lists it in front of those inside, which stand in it. -/
theorem outline_of_some {n : Node} {o : Opener} {inside : List Node}
    (h : n.scope? = some (o, inside)) (here next : Nat) :
    n.outline here next = outlines next next [(o, here)] inside := by
  rw [outline, outlines]
  split
  · next o' inside' h' =>
    rw [h] at h'
    cases h'
    simp
  · next h' =>
    rw [h] at h'
    cases h'

/-- A node without one lists the scopes of its children, which stand where it stands. -/
theorem outline_of_none {n : Node} (h : n.scope? = none) (here next : Nat) :
    n.outline here next = outlines here next [] n.children := by
  rw [outline, outlines]
  split
  · next o' inside' h' =>
    rw [h] at h'
    cases h'
  · simp

/-- A step of a walk that goes in and out of scopes. -/
inductive Move where
  | enter (o : Opener)
  | leave

/-- How a walk through a node and all below it goes in and out of scopes. -/
def moves (n : Node) : List Move :=
  match _h : n.scope? with
  | some (o, inside) => .enter o :: (inside.attach.flatMap fun ⟨m, _⟩ => m.moves) ++ [.leave]
  | none => n.children.attach.flatMap fun ⟨m, _⟩ => m.moves
termination_by n.size
decreasing_by
  · exact size_lt_of_mem_scope ‹_› ‹_›
  · exact size_lt_of_mem_children ‹_›

/-- A scope is entered, gone through and left. -/
theorem moves_of_some {n : Node} {o : Opener} {inside : List Node}
    (h : n.scope? = some (o, inside)) :
    n.moves = .enter o :: (inside.flatMap moves ++ [.leave]) := by
  rw [moves]
  split
  · next o' inside' h' =>
    rw [h] at h'
    cases h'
    simp
  · next h' =>
    rw [h] at h'
    cases h'

/-- Without a scope of its own a node is just gone through. -/
theorem moves_of_none {n : Node} (h : n.scope? = none) : n.moves = n.children.flatMap moves := by
  rw [moves]
  split
  · next o' inside' h' =>
    rw [h] at h'
    cases h'
  · simp

end Node

/-! ## Walking with a stack -/

/-- How far a walk has come: the scopes that were opened, each with its number and the scope
around it, and the indices of those the walk is in, from the inside out. -/
structure Trail where
  opened : List (Nat × Option Nat)
  stack : List Nat

namespace Trail

def step (t : Trail) : Node.Move → Trail
  | .enter o => ⟨t.opened ++ [(o.id, t.stack.head?)], t.opened.length :: t.stack⟩
  | .leave => { t with stack := t.stack.tail }

def run (t : Trail) (ms : List Node.Move) : Trail := ms.foldl step t

/-- Moves are replayed one after the other. -/
theorem run_append (t : Trail) (ms ns : List Node.Move) :
    t.run (ms ++ ns) = (t.run ms).run ns :=
  List.foldl_append

end Trail

/-- The number of a scope of an outline and the scope around it. -/
def entry : Opener × Nat → Nat × Option Nat
  | (o, around) => (o.id, some around)

namespace Node

variable {n : Node} {o : Opener} {inside : List Node}

/-- The walk through a node opens the scopes of its outline, and ends in the scope that it began
in. -/
def Outlined (n : Node) : Prop :=
  ∀ opened here stack, Trail.run ⟨opened, here :: stack⟩ n.moves =
    ⟨opened ++ (n.outline here opened.length).map entry, here :: stack⟩

/-- Below some nodes scopes are opened in the order of the outlines, and the walk is back where it
began behind each of them. The induction is on the nodes. -/
theorem run_flatMap {ns : List Node} (h : ∀ m ∈ ns, m.Outlined)
    (opened : List (Nat × Option Nat)) (found : List (Opener × Nat)) (here : Nat)
    (stack : List Nat) :
    Trail.run ⟨opened ++ found.map entry, here :: stack⟩ (ns.flatMap moves) =
      ⟨opened ++ (outlines here opened.length found ns).map entry, here :: stack⟩ := by
  induction ns generalizing found with
  | nil => rfl
  | cons m ns ih =>
    rw [List.flatMap_cons, Trail.run_append, h m List.mem_cons_self, List.length_append,
      List.length_map, List.append_assoc, ← List.map_append]
    exact ih (fun k hk => h k (List.mem_cons_of_mem _ hk)) _

/-- Replaying the moves of a node opens the scopes of its outline and leads back. By induction on
the size of the node, as what is inside a scope is not always a list of children. -/
theorem outlined (n : Node) : n.Outlined := by
  intro opened here stack
  cases h : n.scope? with
  | none =>
    rw [moves_of_none h, outline_of_none h]
    simpa using run_flatMap (fun m hm => outlined m) opened [] here stack
  | some scope =>
    rcases scope with ⟨o, inside⟩
    have hinside := run_flatMap (fun m (hm : m ∈ inside) => outlined m) opened
      [(o, here)] opened.length (here :: stack)
    -- The scope is entered, its nodes are walked, and it is left again.
    rw [moves_of_some h, outline_of_some h]
    show Trail.run ⟨opened ++ [(o, here)].map entry, opened.length :: here :: stack⟩
      (inside.flatMap moves ++ [.leave]) = _
    rw [Trail.run_append, hinside]
    rfl
termination_by n.size
decreasing_by
  · exact size_lt_of_mem_children hm
  · exact size_lt_of_mem_scope h hm

/-! ## What an outline holds -/

/-- A node with a scope of its own comes before what stands in it. -/
theorem openers_of_some (h : n.scope? = some (o, inside)) :
    n.walk.filterMap opener? = o :: (inside.flatMap walk).filterMap opener? := by
  have hcontrol : ∀ (c : Control) (m : Node), m.children = c.children → m.opener? = c.loop? →
      c.scope? = some (o, inside) →
      m.walk.filterMap opener? = o :: (inside.flatMap walk).filterMap opener? := by
    intro c m hchildren hopener hscope
    rw [walk_eq, hchildren, List.filterMap_cons, hopener]
    unfold Control.scope? at hscope
    split at hscope
    · next b condition step body span =>
      cases hscope
      -- The loop itself opens no scope; its first part does.
      have hfirst : (expr (.block b)).walk =
          expr (.block b) :: (b.statements.map stmt).flatMap walk := walk_eq _
      simp only [Control.loop?, Control.children, ForHeader.parts, Option.toList_some,
        List.map_append, List.flatMap_append, List.flatMap_cons, List.map_cons, hfirst,
        List.cons_append, List.nil_append, List.filterMap_cons, opener?, List.append_assoc]
    · next init condition step body span hinit =>
      cases hscope
      have hloop : (Control.forDo (.classic init condition step) body span).loop? =
          some (.loop body) := by
        unfold Control.loop?
        split
        · next b _ _ _ _ heq => cases heq; exact absurd rfl (hinit b)
        · next heq => cases heq; rfl
        · next hother => exact absurd rfl (hother init condition step body span)
      rw [hloop]
      rfl
    · cases hscope
  unfold scope? at h
  split at h
  · cases h
    rw [walk_eq]
    rfl
  · cases h
    rw [walk_eq]
    rfl
  · next c => exact hcontrol c _ rfl rfl h
  · next c => exact hcontrol c _ rfl rfl h
  · cases h

/-- A node that opens no scope adds none to those of the walk below it. -/
theorem openers_of_none (h : n.scope? = none) :
    n.walk.filterMap opener? = (n.children.flatMap walk).filterMap opener? := by
  have hcontrol : ∀ c : Control, c.scope? = none → c.loop? = none := by
    intro c hc
    unfold Control.scope? at hc
    split at hc
    · cases hc
    · cases hc
    · next hother =>
      unfold Control.loop?
      split
      · rfl
      · exact absurd rfl (hother _ _ _ _ _)
      · rfl
  -- It remains to go through the kinds of nodes, of which only constructs ask for the fact above.
  have hopener : n.opener? = none := by
    unfold scope? at h
    split at h
    · cases h
    · cases h
    · exact hcontrol _ h
    · exact hcontrol _ h
    · unfold opener?
      split <;> first | rfl | simp_all
  rw [walk_eq, List.filterMap_cons, hopener]

/-- Outlines list the scopes in the order in which the walk comes to them. -/
theorem openers_outlines {ns : List Node} (here next : Nat)
    (h : ∀ m ∈ ns, ∀ here next, (m.outline here next).map (·.1) = m.walk.filterMap opener?)
    (found : List (Opener × Nat)) :
    (outlines here next found ns).map (·.1) =
      found.map (·.1) ++ (ns.flatMap walk).filterMap opener? := by
  induction ns generalizing found with
  | nil => simp [outlines]
  | cons m ns ih =>
    have hrest := ih (fun k hk => h k (List.mem_cons_of_mem _ hk))
      (found ++ m.outline here (next + found.length))
    rw [List.map_append, h m List.mem_cons_self] at hrest
    rw [List.flatMap_cons, List.filterMap_append, ← List.append_assoc]
    exact hrest

/-- The scopes of an outline are those that the nodes of the walk call for, one for each and in the
order of the walk. -/
theorem openers_outline (n : Node) (here next : Nat) :
    (n.outline here next).map (·.1) = n.walk.filterMap opener? := by
  cases h : n.scope? with
  | none =>
    rw [outline_of_none h, openers_of_none h]
    exact openers_outlines here next (fun m hm => openers_outline m) []
  | some scope =>
    rw [outline_of_some h, openers_of_some h]
    exact openers_outlines next next (fun m hm => openers_outline m) [(scope.1, here)]
termination_by n.size
decreasing_by
  · exact size_lt_of_mem_children hm
  · exact size_lt_of_mem_scope h hm

/-- A node is a block if it opens a scope for one. -/
theorem block?_eq_bind_opener? (n : Node) : n.block? = n.opener?.bind Opener.block? := by
  have hcontrol : ∀ c : Control, none = c.loop?.bind Opener.block? := by
    intro c
    unfold Control.loop?
    split <;> rfl
  match n with
  | program p => rfl
  | block b => rfl
  | stmt (.control c) => exact hcontrol c
  | stmt (.expression _) | stmt (.assignment ..) | stmt (.error _) => rfl
  | expr (.control c) => exact hcontrol c
  | expr (.block _) | expr (.number ..) | expr (.string ..) | expr (.name _) | expr (.array ..)
  | expr (.unary ..) | expr (.binary ..) | expr (.error _) => rfl

/-- Each scope stands in one that was opened before. -/
def Backward (next : Nat) (found : List (Opener × Nat)) : Prop :=
  ∀ k o around, found[k]? = some (o, around) → around < next + k

/-- Scopes that stand in earlier ones still do so behind others. -/
theorem Backward.append {next : Nat} {found others : List (Opener × Nat)}
    (h : Backward next found) (hothers : Backward (next + found.length) others) :
    Backward next (found ++ others) := by
  intro k o around hk
  by_cases hlt : k < found.length
  · rw [List.getElem?_append_left hlt] at hk
    exact h k o around hk
  · rw [List.getElem?_append_right (Nat.le_of_not_lt hlt)] at hk
    have := hothers _ o around hk
    omega

/-- Outlines of nodes one after the other: the scope around them is an earlier one all the time. -/
theorem backward_outlines {ns : List Node} {here next : Nat}
    (h : ∀ m ∈ ns, ∀ here next, here < next → Backward next (m.outline here next))
    {found : List (Opener × Nat)} (hhere : here < next + found.length)
    (hfound : Backward next found) : Backward next (outlines here next found ns) := by
  induction ns generalizing found with
  | nil => exact hfound
  | cons m ns ih =>
    have hm := h m List.mem_cons_self here (next + found.length) hhere
    have hlonger : here < next + (found ++ m.outline here (next + found.length)).length := by
      rw [List.length_append]
      omega
    exact ih (fun k hk => h k (List.mem_cons_of_mem _ hk)) hlonger (hfound.append hm)

/-- Every scope of an outline stands in one that is listed earlier, or in the one around
the node. -/
theorem backward_outline (n : Node) {here next : Nat} (hhere : here < next) :
    Backward next (n.outline here next) := by
  cases h : n.scope? with
  | none =>
    rw [outline_of_none h]
    exact backward_outlines (fun m hm _ _ hlt => backward_outline m hlt) hhere nofun
  | some scope =>
    rw [outline_of_some h]
    -- The nodes in the new scope come behind it.
    have hfirst : Backward next [(scope.1, here)] := by
      intro k o around hk
      cases k with
      | zero => cases hk; exact hhere
      | succ k => cases hk
    exact backward_outlines (fun m hm _ _ hlt => backward_outline m hlt) (Nat.lt_succ_self next)
      hfirst
termination_by n.size
decreasing_by
  · exact size_lt_of_mem_children hm
  · exact size_lt_of_mem_scope h hm

end Node

/-! ## The checker goes in and out of scopes -/

namespace Check

/-- A part of the check in the scope at index `here` opens scopes as a walk with these moves
does, and the walk ends where it began. -/
def Goes (here : Nat) (c : Check α) (ms : List Node.Move) : Prop :=
  ∀ s stack, Trail.run ⟨s.scopes.frame, here :: stack⟩ ms =
    ⟨(c s).2.scopes.frame, here :: stack⟩

section Rules

variable {here : Nat}

/-- A part that opens no scope. -/
theorem Goes.of_frame {c : Check α} (h : ∀ s, (c s).2.scopes.frame = s.scopes.frame) :
    Goes here c [] := by
  intro s stack
  rw [h s]
  rfl

/-- Nothing is checked, so there is no move. -/
theorem Goes.pure (a : α) : Goes here (Pure.pure a) [] :=
  Goes.of_frame fun _ => rfl

/-- The moves of a second check follow those of the first. Both start in the same scope, as the
first is back in it. -/
theorem Goes.bind {c : Check α} {k : α → Check β} {ms ns : List Node.Move} (h : Goes here c ms)
    (hk : ∀ a, Goes here (k a) ns) : Goes here (c >>= k) (ms ++ ns) := by
  intro s stack
  rw [Trail.run_append, h s stack]
  exact hk (c s).1 (c s).2 stack

/-- A part with nothing behind it that opens a scope. -/
theorem Goes.bind_still {c : Check α} {k : α → Check β} {ms : List Node.Move} (h : Goes here c ms)
    (hk : ∀ a, Goes here (k a) []) : Goes here (c >>= k) ms := by
  have := h.bind hk
  rwa [List.append_nil] at this

/-- A report opens no scope. -/
theorem Goes.report (cause : Cause) (span : Span) : Goes here (Check.report cause span) [] :=
  Goes.of_frame fun _ => rfl

/-- Declaring a local binds it in a scope that is there. -/
theorem Goes.declare (index : Nat) (name : String) (type : ValueType) :
    Goes here (Check.declare index name type) [] :=
  Goes.of_frame fun s => s.scopes.frame_bindAt index name type

/-- Nor is one opened by declaring several locals. -/
theorem Goes.declareAll (names : List String) : Goes here (Check.declareAll here names) [] := by
  induction names with
  | nil => exact Goes.pure ()
  | cons name names ih => exact (Goes.declare here name .any).bind fun _ => ih

/-- Locals that are declared with types of their own open none either. -/
theorem Goes.declareLocals (locals : List (String × ValueType)) :
    Goes here (locals.forM fun (name, type) => Check.declare here name type) [] := by
  induction locals with
  | nil => exact Goes.pure ()
  | cons entry locals ih => exact (Goes.declare here entry.1 entry.2).bind fun _ => ih

/-- An assignment binds a local here or changes the type of one around. -/
theorem Goes.assign (name : String) (type : ValueType) :
    Goes here (Check.assign here name type) [] :=
  Goes.of_frame fun s => s.scopes.frame_bindAt _ name type

/-- Comparing types may report, which opens nothing. -/
theorem Goes.checkType (expected received : ValueType) (span : Span) :
    Goes here (Check.checkType expected received span) [] := by
  unfold Check.checkType
  split
  · exact Goes.report _ _
  · exact Goes.pure _

theorem Goes.get_bind {k : State → Check α} {ms : List Node.Move} (h : ∀ s, Goes here (k s) ms) :
    Goes here (get >>= k) ms :=
  fun s stack => h s s stack

/-- Looking up a local opens nothing. -/
theorem Goes.localType (cx : Context) (n : Name) : Goes here (Check.localType cx here n) [] := by
  unfold Check.localType
  split
  · exact Goes.pure _
  · refine Goes.get_bind fun s => ?_
    split
    · exact Goes.pure _
    · split
      · exact (Goes.report _ _).bind fun _ => Goes.pure _
      · exact Goes.pure _

/-- Nor does looking up a global. -/
theorem Goes.globalType (cx : Context) (n : Name) : Goes here (Check.globalType cx n) [] := by
  unfold Check.globalType
  split
  · exact Goes.pure _
  · split
    · exact Goes.pure _
    · split
      · exact (Goes.report _ _).bind fun _ => Goes.pure _
      · exact Goes.pure _

theorem Goes.nameType (cx : Context) (n : Name) : Goes here (Check.nameType cx here n) [] := by
  unfold Check.nameType
  split
  · exact Goes.localType cx n
  · exact Goes.globalType cx n

/-- A command is looked up in the table. -/
theorem Goes.commandExists (cx : Context) (command : Name) (arity : Arity) :
    Goes here (Check.commandExists cx command arity) [] := by
  unfold Check.commandExists
  split
  · exact Goes.pure _
  · exact (Goes.report _ _).bind fun _ => Goes.pure _

/-- The type of a call is that of an overload; if there is none, this is reported. -/
theorem Goes.resultType (cx : Context) (command : Name) (arity : Arity)
    (operands : List (ValueType × Span)) :
    Goes here (Check.resultType cx command arity operands) [] := by
  unfold Check.resultType
  split
  · exact Goes.pure _
  · exact (Goes.report _ _).bind fun _ => Goes.pure _
  · exact Goes.pure _
  · exact Goes.pure _

/-- What a command yields if it is known. -/
theorem Goes.resultIf (cx : Context) (isKnown : Bool) (command : Name) (arity : Arity)
    (operands : List (ValueType × Span)) :
    Goes here (if isKnown then Check.resultType cx command arity operands else return .any)
      [] := by
  split
  · exact Goes.resultType cx command arity operands
  · exact Goes.pure _

/-- A part that runs in a scope of its own. -/
theorem Goes.openScope {c : Nat → Check α} {ms : List Node.Move} (o : Opener)
    (h : ∀ inside, Goes inside (c inside) ms) :
    Goes here (do c (← Check.openScope here o.id)) (.enter o :: (ms ++ [.leave])) := by
  intro s stack
  have hinside := h s.scopes.all.size { s with scopes := s.scopes.enter o.id here } (here :: stack)
  have hrun : (do c (← Check.openScope here o.id)) s =
      c s.scopes.all.size { s with scopes := s.scopes.enter o.id here } := rfl
  rw [Scopes.frame_enter] at hinside
  show Trail.run ⟨s.scopes.frame ++ [(o.id, some here)], s.scopes.frame.length :: here :: stack⟩
    (ms ++ [.leave]) = _
  rw [Scopes.length_frame, Trail.run_append, hinside, hrun]
  rfl

end Rules

/-! ## All of the check -/

open Node (moves moves_of_some moves_of_none)

theorem moves_stmt_expression (e : Expr) : moves (.stmt (.expression e)) = moves (.expr e) := by
  rw [moves_of_none (n := .stmt (.expression e)) rfl]
  simp [Node.children]

/-- A block is gone through as its node. -/
theorem moves_block (b : Block) : moves (.expr (.block b)) = moves (.block b) := by
  rw [moves_of_some (n := .expr (.block b)) rfl, moves_of_some (n := .block b) rfl]

/-- An assignment is gone through as its value. -/
theorem moves_assignment (isPrivate : Bool) (target : Name) (value : Expr) (span : Span) :
    moves (.stmt (.assignment isPrivate target value span)) = moves (.expr value) := by
  rw [moves_of_none (n := .stmt (.assignment isPrivate target value span)) rfl]
  simp [Node.children]

theorem moves_some_block (b : Block) :
    ((some (Expr.block b)).toList.map Node.expr).flatMap moves = moves (.block b) := by
  simp [moves_block]

/-- The moves through a construct are the same where it is a statement and where it is an
expression. -/
theorem moves_control (c : Control) : moves (.stmt (.control c)) = moves (.expr (.control c)) := by
  cases h : c.scope? with
  | none =>
    rw [moves_of_none (n := .stmt (.control c)) h, moves_of_none (n := .expr (.control c)) h]
    rfl
  | some scope =>
    rw [moves_of_some (n := .stmt (.control c)) h, moves_of_some (n := .expr (.control c)) h]

variable (cx : Context)

mutual

/-- The check of an expression makes the moves of its node. The induction is on the tree, and each
case lines up the moves of the parts in the order in which they are checked. -/
theorem expr_goes (here : Nat) (e : Expr) : Goes here (Check.expr cx here e) (moves (.expr e)) := by
  cases e with
  | number value span => rw [moves_of_none rfl]; exact Goes.pure _
  | string value span => rw [moves_of_none rfl]; exact Goes.pure _
  | name n => rw [moves_of_none rfl]; exact Goes.nameType cx n
  | array elements span =>
    rw [moves_of_none rfl]
    exact (exprs_go here elements).bind_still fun _ => Goes.pure _
  | block b => rw [moves_block]; exact (block_goes here [] b).bind_still fun _ => Goes.pure _
  | unary command operand span =>
    rw [moves_of_none rfl]
    exact (Goes.commandExists cx command .unary).bind fun isKnown =>
      (Goes.declareAll (declaredNames command operand)).bind fun _ =>
        (expr_goes here operand).bind fun _ =>
          Goes.resultIf cx isKnown command .unary _
  | binary joint left command right span =>
    rw [moves_of_none rfl]
    exact (expr_goes here left).bind fun _ =>
      (Goes.commandExists cx command .binary).bind fun isKnown =>
        (expr_goes here right).bind fun _ =>
          (Goes.declareAll (declaredNames command right)).bind fun _ =>
            Goes.resultIf cx isKnown command .binary _
  | control c => rw [← moves_control]; exact control_goes here c
  | error span => rw [moves_of_none rfl]; exact Goes.pure _

/-- Elements are checked from left to right. -/
theorem exprs_go (here : Nat) (es : List Expr) :
    Goes here (Check.exprs cx here es) ((es.map .expr).flatMap moves) := by
  cases es with
  | nil => exact Goes.pure _
  | cons e es =>
    exact (expr_goes here e).bind fun _ => (exprs_go here es).bind_still fun _ => Goes.pure _

/-- A part that is missing makes no moves. -/
theorem expr?_goes (here : Nat) (e : Option Expr) :
    Goes here (Check.expr? cx here e) ((e.toList.map .expr).flatMap moves) := by
  cases e with
  | none => exact Goes.pure _
  | some e => exact (expr_goes here e).bind fun _ => Goes.pure _

/-- A branch makes the moves of its block or expression. -/
theorem branch?_goes (here : Nat) (e : Option Expr) :
    Goes here (Check.branch? cx here e) ((e.toList.map .expr).flatMap moves) := by
  cases e with
  | none => exact Goes.pure _
  | some e =>
    cases e with
    | block b =>
      rw [moves_some_block]
      exact (block_goes here [] b).bind_still fun _ => Goes.pure _
    | _ => exact (expr_goes here _).bind fun _ => Goes.pure _

/-- A condition of a loop is a block, and makes its moves, or is refused as an expression. -/
theorem loopCondition_goes (here : Nat) (construct : String) (span : Span) (e : Option Expr) :
    Goes here (Check.loopCondition cx here construct span e)
      ((e.toList.map .expr).flatMap moves) := by
  cases e with
  | none => exact Goes.report _ _
  | some e =>
    cases e with
    | block b =>
      rw [moves_some_block]
      exact (block_goes here [] b).bind_still fun _ => Goes.checkType _ _ _
    | _ => exact (expr_goes here _).bind fun _ => Goes.checkType _ _ _

/-- A bound is checked like any expression. -/
theorem bound?_goes (here : Nat) (e : Option Expr) :
    Goes here (Check.bound? cx here e) ((e.toList.map .expr).flatMap moves) := by
  cases e with
  | none => exact Goes.pure _
  | some e => exact (expr_goes here e).bind fun _ => Goes.checkType _ _ _

/-- A block enters its scope, declares what it is given, goes through its statements and is left. -/
theorem block_goes (here : Nat) (locals : List (String × ValueType)) (b : Block) :
    Goes here (Check.block cx here locals b) (moves (.block b)) := by
  cases b with
  | mk id statements span =>
    rw [moves_of_some rfl]
    exact Goes.openScope (.block ⟨id, statements, span⟩) fun inside =>
      (Goes.declareLocals locals).bind fun _ => stmts_go inside .nothing statements

/-- A body that is missing makes no moves. -/
theorem body?_goes (here : Nat) (locals : List (String × ValueType)) (construct : String)
    (span : Span) (b : Option Block) :
    Goes here (Check.body? cx here locals construct span b)
      ((b.toList.map .block).flatMap moves) := by
  cases b with
  | none => exact Goes.report _ _
  | some b => exact (block_goes here locals b).bind fun _ => Goes.pure _

/-- An assignment makes the moves of its value, and none when it binds the name. -/
theorem stmt_goes (here : Nat) (a : Stmt) :
    Goes here (Check.stmt cx here a) (moves (.stmt a)) := by
  cases a with
  | expression e => rw [moves_stmt_expression]; exact expr_goes here e
  | assignment isPrivate target value span =>
    rw [moves_assignment, Check.stmt]
    refine (expr_goes here value).bind_still fun type => ?_
    split
    · exact (Goes.declare here target.text type).bind fun _ => Goes.pure _
    · split
      · exact (Goes.assign target.text type).bind fun _ => Goes.pure _
      · exact Goes.pure _
  | control c => exact control_goes here c
  | error span => rw [moves_of_none rfl]; exact Goes.pure _

/-- Statements are gone through one after the other. -/
theorem stmts_go (here : Nat) (last : ValueType) (ss : List Stmt) :
    Goes here (Check.stmts cx here last ss) ((ss.map .stmt).flatMap moves) := by
  cases ss with
  | nil => exact Goes.pure _
  | cons a ss => exact (stmt_goes here a).bind fun type => stmts_go here type ss

/-- The constructs. A loop with a header of three parts enters its scope first, and leaves it at
its end. -/
theorem control_goes (here : Nat) (c : Control) :
    Goes here (Check.control cx here c) (moves (.stmt (.control c))) := by
  cases c with
  | ifThen condition form branch otherwise span =>
    have hbranch : Goes here (Check.thenPart cx here branch) (moves (.expr branch)) := by
      cases branch with
      | block b => rw [moves_block]; exact block_goes here [] b
      | _ => exact expr_goes here _
    have hparts := hbranch.bind fun thenType =>
      (branch?_goes here otherwise).bind_still fun otherType =>
        Goes.pure (Check.ifType form thenType otherType)
    rw [moves_of_none rfl, Check.control_ifThen]
    simp only [Node.children, Control.children, List.flatMap_append, List.flatMap_cons]
    cases condition with
    | none => exact (Goes.report _ _).bind fun _ => hparts
    | some e =>
      simp only [Option.toList_some, List.map_cons, List.map_nil, List.flatMap_cons,
        List.flatMap_nil, List.append_nil]
      exact (expr_goes here e).bind fun _ => (Goes.checkType _ _ _).bind fun _ => hparts
  | whileDo condition body span =>
    rw [moves_of_none rfl]
    simp only [Node.children, Control.children, List.flatMap_append]
    exact (loopCondition_goes here "while" span condition).bind fun _ =>
      (body?_goes here [] "while" span body).bind_still fun _ => Goes.pure _
  | forDo header body span =>
    cases header with
    | range name first last step =>
      have hloop := (bound?_goes here first).bind fun _ =>
        (bound?_goes here last).bind fun _ =>
          (bound?_goes here step).bind fun _ =>
            (body?_goes here [(name.text, .number)] "for" span body).bind_still fun _ =>
              Goes.pure (α := ValueType) .nothing
      rw [moves_of_none rfl]
      simp only [Node.children, Control.children, ForHeader.parts, List.map_append,
        List.flatMap_append, List.append_assoc]
      -- A bound that is missing is reported first, which opens no scope.
      rw [Check.control]
      split
      · exact (Goes.report _ _).bind fun _ => hloop
      · exact hloop
    | classic init condition step =>
      -- Whatever the scope is opened for, the first part is followed by the others in it.
      have hloop (o : Opener) (first : List Node.Move) (hid : classicScopeId init body = o.id)
          (hfirst : ∀ loop, Goes loop (Check.init? cx loop init) first) :
          Goes here (Check.control cx here (.forDo (.classic init condition step) body span))
            (.enter o :: ((first ++ ((condition.toList.map .expr).flatMap moves ++
              ((step.toList.map .expr).flatMap moves ++
                (body.toList.map .block).flatMap moves))) ++ [.leave])) := by
        rw [Check.control, hid]
        exact Goes.openScope o fun loop => (hfirst loop).bind fun _ =>
          (loopCondition_goes loop "for" span condition).bind fun _ =>
            (expr?_goes loop step).bind fun _ =>
              (body?_goes loop [] "for" span body).bind_still fun _ => Goes.pure _
      have hplain (o : Opener) (hid : classicScopeId init body = o.id)
          (hscope : (Control.forDo (.classic init condition step) body span).scope? =
            some (o, (init.toList ++ condition.toList ++ step.toList).map .expr ++
              body.toList.map .block))
          (hfirst : ∀ loop, Goes loop (Check.init? cx loop init)
            ((init.toList.map .expr).flatMap moves)) :
          Goes here (Check.control cx here (.forDo (.classic init condition step) body span))
            (moves (.stmt (.control (.forDo (.classic init condition step) body span)))) := by
        rw [moves_of_some (n := .stmt (.control (.forDo (.classic init condition step) body span)))
          hscope]
        simp only [List.map_append, List.flatMap_append, List.append_assoc]
        have := hloop o _ hid hfirst
        simpa only [List.append_assoc] using this
      cases init with
      | none => exact hplain (.loop body) (by cases body <;> rfl) rfl fun loop => Goes.pure _
      | some e =>
        cases e with
        | block b =>
          rcases b with ⟨id, statements, blockSpan⟩
          have hfirst (loop : Nat) :
              Goes loop (Check.init? cx loop (some (.block ⟨id, statements, blockSpan⟩)))
                ((statements.map .stmt).flatMap moves) := by
            unfold Check.init?
            exact (stmts_go loop .nothing statements).bind_still fun _ => Goes.pure _
          rw [moves_of_some rfl]
          simp only [List.map_append, List.flatMap_append]
          have := hloop (.block ⟨id, statements, blockSpan⟩) _ rfl hfirst
          simpa only [List.append_assoc] using this
        | _ =>
          exact hplain (.loop body) (by cases body <;> rfl) rfl fun loop =>
            (expr_goes loop _).bind fun _ => Goes.pure _
    | missing =>
      rw [moves_of_none rfl]
      exact (Goes.report _ _).bind fun _ =>
        (body?_goes here [] "for" span body).bind_still fun _ => Goes.pure _
  | switchDo subject body span =>
    have hbody := (body?_goes here [] "switch" span body).bind_still fun _ =>
      Goes.pure (α := ValueType) .any
    rw [moves_of_none rfl]
    simp only [Node.children, Control.children, List.flatMap_append]
    cases subject with
    | none => exact (Goes.report _ _).bind fun _ => hbody
    | some e =>
      simp only [Option.toList_some, List.map_cons, List.map_nil, List.flatMap_cons,
        List.flatMap_nil, List.append_nil]
      exact (expr_goes here e).bind fun _ => hbody
  | case isDefault condition b span =>
    rw [moves_of_none rfl]
    simp only [Node.children, Control.children, List.flatMap_append]
    unfold Check.control
    refine (expr?_goes here condition).bind fun _ => ?_
    cases b with
    | none => exact Goes.pure _
    | some b => exact (block_goes here [] b).bind fun _ => Goes.pure _

end

end Check

/-- The checker leaves the scopes that the outline of the script lists, behind the one of the whole
script at index 0. In the order of the walk there is one for each block, with the block's number,
and one for each loop with a header of three parts that does not start with a block. Each stands in
an earlier one. Replaying the moves of the walk opens these scopes and leads back to the stack it
began with. That is shown of the moves only: the checker hands its scope on to what it checks and
keeps no stack that could be left standing. -/
theorem scopes_mirror_tree (table : Table) (settings : Settings) (p : Program) :
    let frame := (check table settings p).scopes.frame
    let outline := (Node.program p).outline 0 1
    frame = (0, none) :: outline.map entry ∧
      outline.map (·.1) = (Node.program p).walk.filterMap Node.opener? ∧
      outline.filterMap (fun found => found.1.block?) =
        (Node.program p).walk.filterMap Node.block? ∧
      (∀ k o around, outline[k]? = some (o, around) → around < k + 1) ∧
      Trail.run ⟨[(0, none)], [0]⟩ (Node.program p).moves = ⟨frame, [0]⟩ := by
  intro frame outline
  have hrun : Trail.run ⟨[(0, none)], [0]⟩ (Node.program p).moves = ⟨frame, [0]⟩ := by
    -- The checker makes the moves of the tree, and these lead back to the root.
    have hgoes : Check.Goes 0 (Check.program ⟨table, settings⟩ p) (Node.program p).moves := by
      rw [Node.moves_of_none rfl]
      exact (Check.stmts_go _ 0 .nothing p.statements).bind_still fun _ => Check.Goes.pure _
    exact hgoes {} []
  have hframe : frame = (0, none) :: outline.map entry := by
    -- The moves open what the outline lists, so the outline is what the checker leaves.
    have houtlined := (Node.program p).outlined [(0, none)] 0 []
    rw [hrun] at houtlined
    exact congrArg Trail.opened houtlined
  have hopeners : outline.map (·.1) = (Node.program p).walk.filterMap Node.opener? :=
    Node.openers_outline _ 0 1
  have hblocks : outline.filterMap (fun found => found.1.block?) =
      (Node.program p).walk.filterMap Node.block? := by
    calc outline.filterMap (fun found => found.1.block?)
        = (outline.map (·.1)).filterMap Opener.block? := by
          rw [List.filterMap_map]
          rfl
      _ = ((Node.program p).walk.filterMap Node.opener?).filterMap Opener.block? := by
          rw [hopeners]
      _ = (Node.program p).walk.filterMap Node.block? := by
          rw [List.filterMap_filterMap]
          congr 1
          funext n
          rw [n.block?_eq_bind_opener?]
  refine ⟨hframe, hopeners, hblocks, fun k o around hk => ?_, hrun⟩
  rw [Nat.add_comm]
  exact Node.backward_outline _ Nat.one_pos k o around hk

end Sqf
