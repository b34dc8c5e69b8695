import Sqf.Proofs.Parse.Leaves
import Sqf.Proofs.Tree.Node

/-!
# Trees whose spans and leaves have a property

What is shown of the spans and leaves of a tree is shown of one node and its children at a
time.
-/

namespace Sqf.Node

/-- The spans of all nodes of a tree have one property, and all of its leaves another. -/
structure Marked (span : Span → Prop) (leaf : Leaf → Prop) (n : Node) : Prop where
  spans : ∀ m ∈ n.walk, span m.span
  leaves : ∀ l ∈ n.leaves, leaf l

namespace Marked

variable {span : Span → Prop} {leaf : Leaf → Prop} {n m : Node}

theorem spanSelf (h : n.Marked span leaf) : span n.span := h.spans n n.mem_walk_self

/-- A tree that is marked has marked leaves at its root. -/
theorem ownLeaves (h : n.Marked span leaf) : ∀ l ∈ n.ownLeaves, leaf l := by
  intro l hl
  apply h.leaves
  rw [leaves_eq]
  exact List.mem_append_left _ hl

/-- The tree of a child is marked too. -/
theorem child (h : n.Marked span leaf) (hm : m ∈ n.children) : m.Marked span leaf := by
  constructor
  · exact fun k hk => h.spans k (walk_subset_of_mem_children hm hk)
  · intro l hl
    apply h.leaves
    rw [leaves_eq]
    exact List.mem_append_right _ (List.mem_flatMap.2 ⟨m, hm, hl⟩)

/-- A tree is marked if its root is and the trees below it are. -/
theorem of_children (hspan : span n.span) (hown : ∀ l ∈ n.ownLeaves, leaf l)
    (hchildren : ∀ m ∈ n.children, m.Marked span leaf) : n.Marked span leaf := by
  constructor
  · rw [walk_eq]
    intro m hm
    rcases List.mem_cons.1 hm with rfl | hm
    · exact hspan
    · obtain ⟨child, hchild, hmem⟩ := List.mem_flatMap.1 hm
      exact (hchildren child hchild).spans m hmem
  · rw [leaves_eq]
    intro l hl
    rcases List.mem_append.1 hl with hl | hl
    · exact hown l hl
    · obtain ⟨child, hchild, hmem⟩ := List.mem_flatMap.1 hl
      exact (hchildren child hchild).leaves l hmem

end Marked

end Sqf.Node
