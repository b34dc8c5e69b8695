import Mathlib.Data.List.Flatten
import Sqf.Proofs.Tree.Node

/-!
# Spans of a tree

What can be said of a script is said at a node or at the name of a command. `Node.spans`
lists these places in the order of the source: the command of an operator stands between
its operands.
-/

namespace Sqf.Node

/-- The command that a node applies to operands. -/
def command? : Node → Option Name
  | expr (.unary command _ _) => some command
  | expr (.binary _ _ command _ _) => some command
  | _ => none

/-- Operators have operands. -/
theorem command?_eq_none {n : Node} (h : n.children = []) : n.command? = none := by
  unfold command?
  split
  · cases h
  · cases h
  · rfl

/-- The spans of a node, of all nodes below it and of their commands, in the order of the
source. -/
def spans : Node → List Span
  | expr (.unary command operand span) => span :: command.span :: (expr operand).spans
  | expr (.binary _ left command right span) =>
    span :: ((expr left).spans ++ command.span :: (expr right).spans)
  | n => n.span :: n.children.attach.flatMap fun ⟨m, _⟩ => m.spans
termination_by n => n.size
decreasing_by
  · simp [size]; omega
  · simp [size]; omega
  · simp [size]; omega
  · exact size_lt_of_mem_children ‹_›

/-- A unary command stands in front of its operand. -/
theorem spans_unary (command : Name) (operand : Expr) (span : Span) :
    (expr (.unary command operand span)).spans =
      span :: command.span :: (expr operand).spans := by
  rw [spans]

/-- A binary command stands between its operands. -/
theorem spans_binary (joint : Joint) (left : Expr) (command : Name) (right : Expr) (span : Span) :
    (expr (.binary joint left command right span)).spans =
      span :: ((expr left).spans ++ command.span :: (expr right).spans) := by
  rw [spans]

/-- Any other node comes before its children. -/
theorem spans_eq {n : Node} (h : n.command? = none) :
    n.spans = n.span :: n.children.flatMap spans := by
  fun_cases command? n
  · cases h
  · cases h
  · rw [spans]
    · simp
    · assumption
    · assumption

/-- The first span is that of the node. -/
theorem exists_spans (n : Node) : ∃ inside, n.spans = n.span :: inside := by
  cases hcommand : n.command? with
  | none => exact ⟨_, spans_eq hcommand⟩
  | some command =>
    unfold command? at hcommand
    split at hcommand
    · exact ⟨_, spans_unary ..⟩
    · exact ⟨_, spans_binary ..⟩
    · cases hcommand

theorem span_mem_spans (n : Node) : n.span ∈ n.spans := by
  obtain ⟨inside, hspans⟩ := n.exists_spans
  exact hspans ▸ List.mem_cons_self

/-- The spans of a child are among those of the node. -/
theorem spans_sublist_of_mem_children {n m : Node} (h : m ∈ n.children) :
    m.spans.Sublist n.spans := by
  -- In a node with a command the children are told apart, since the command stands between them.
  cases hcommand : n.command? with
  | none =>
    rw [spans_eq hcommand, ← List.flatMap_singleton spans m]
    exact .cons _ ((List.singleton_sublist.2 h).flatMap spans)
  | some command =>
    unfold command? at hcommand
    split at hcommand
    · obtain rfl := List.mem_singleton.1 h
      rw [spans_unary]
      exact .cons _ (.cons _ (List.Sublist.refl _))
    · rw [spans_binary]
      rcases List.mem_cons.1 h with rfl | h
      · exact .cons _ (List.sublist_append_left _ _)
      · obtain rfl := List.mem_singleton.1 h
        exact .cons _ ((List.sublist_cons_self _ _).trans (List.sublist_append_right _ _))
    · cases hcommand

/-- The nodes of the walk come in the order of their spans. -/
theorem map_walk_sublist_spans (n : Node) : (n.walk.map span).Sublist n.spans := by
  have hbelow : (n.children.flatMap fun m => m.walk.map span).Sublist
      (n.children.flatMap spans) := by
    refine List.Sublist.flatMap_right _ fun m hm => ?_
    have hsize := size_lt_of_mem_children hm
    exact map_walk_sublist_spans m
  rw [walk_eq, List.map_cons, List.map_flatMap]
  -- The walk leaves out the names of commands and nothing else.
  cases hcommand : n.command? with
  | none =>
    rw [spans_eq hcommand]
    exact .cons_cons _ hbelow
  | some command =>
    unfold command? at hcommand
    split at hcommand
    · rw [spans_unary]
      exact .cons_cons _ (.cons _ (by simpa [children] using hbelow))
    · rw [spans_binary]
      refine .cons_cons _ (hbelow.trans ?_)
      simp [children]
    · cases hcommand
termination_by n.size

/-- The spans of a part of a tree are among those of the tree. -/
theorem spans_sublist_of_mem_walk {n m : Node} (h : m ∈ n.walk) : m.spans.Sublist n.spans := by
  rw [walk_eq] at h
  rcases List.mem_cons.1 h with rfl | h
  · exact List.Sublist.refl _
  · obtain ⟨child, hchild, hmem⟩ := List.mem_flatMap.1 h
    have hsize := size_lt_of_mem_children hchild
    exact (spans_sublist_of_mem_walk hmem).trans (spans_sublist_of_mem_children hchild)
termination_by n.size

end Sqf.Node
