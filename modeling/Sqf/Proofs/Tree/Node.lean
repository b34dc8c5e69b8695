import Sqf.Tree.Node

/-!
# Nodes below other nodes

Going down from a node to one of its children, the height falls, and the nodes
of the walk stay among those of the walk above.
-/

namespace Sqf

/-- The first three elements are those of the header, and others are left out. -/
theorem ForHeader.parts_sublist (elements : List Expr) :
    (ForHeader.classic elements[0]? elements[1]? elements[2]?).parts.Sublist elements := by
  rcases elements with _ | ⟨a, _ | ⟨b, _ | ⟨c, elements⟩⟩⟩
  · exact List.Sublist.refl _
  · exact List.Sublist.refl _
  · exact List.Sublist.refl _
  · exact .cons_cons a (.cons_cons b (.cons_cons c (List.nil_sublist _)))

namespace Node

/-- The greatest of some heights is at most a number if all of them are. -/
theorem foldl_max_le_iff {heights : List Nat} {start k : Nat} :
    heights.foldl max start ≤ k ↔ start ≤ k ∧ ∀ h ∈ heights, h ≤ k := by
  induction heights generalizing start with
  | nil => simp
  | cons height heights ih =>
    rw [List.foldl_cons, ih, Nat.max_le, List.forall_mem_cons, and_assoc]

theorem le_foldl_max {heights : List Nat} {h : Nat} (start : Nat) (hh : h ∈ heights) :
    h ≤ heights.foldl max start :=
  (foldl_max_le_iff.1 (Nat.le_refl _)).2 h hh

/-- A node is one higher than the highest of its children. -/
theorem height_eq (n : Node) : n.height = (n.children.map height).foldl max 0 + 1 := by
  rw [height]
  simp

theorem height_pos (n : Node) : 0 < n.height := by
  rw [height_eq]
  exact Nat.succ_pos _

/-- So its children are lower. -/
theorem height_lt_of_mem_children {n m : Node} (h : n ∈ m.children) : n.height < m.height := by
  rw [height_eq m]
  exact Nat.lt_succ_of_le (le_foldl_max 0 (List.mem_map_of_mem h))

theorem mem_walk_self (n : Node) : n ∈ n.walk := by
  rw [walk_eq]
  exact List.mem_cons_self

/-- The walk of a child is a part of that of the node. -/
theorem walk_subset_of_mem_children {n m : Node} (h : n ∈ m.children) : n.walk ⊆ m.walk := by
  intro k hk
  rw [walk_eq m]
  exact List.mem_cons_of_mem _ (List.mem_flatMap.2 ⟨n, h, hk⟩)

/-- So is the walk of any node on it. -/
theorem walk_subset_of_mem_walk {n m : Node} (h : n ∈ m.walk) : n.walk ⊆ m.walk := by
  rw [walk_eq] at h
  rcases List.mem_cons.1 h with rfl | h
  · exact List.Subset.refl _
  · obtain ⟨child, hchild, hmem⟩ := List.mem_flatMap.1 h
    have hsize := size_lt_of_mem_children hchild
    exact List.Subset.trans (walk_subset_of_mem_walk hmem) (walk_subset_of_mem_children hchild)
termination_by m.size

theorem mem_walk_of_mem_children {n m tree : Node} (hm : m ∈ tree.walk) (h : n ∈ m.children) :
    n ∈ tree.walk :=
  walk_subset_of_mem_walk hm (walk_subset_of_mem_children h n.mem_walk_self)

/-- What is below a block is below the expression that it stands as. -/
theorem mem_walk_blockExpr {b : Block} {n : Node} (h : n ∈ (block b).walk) (hne : n ≠ block b) :
    n ∈ (expr (.block b)).walk := by
  rw [walk_eq] at h ⊢
  exact List.mem_cons_of_mem _ ((List.mem_cons.1 h).resolve_left hne)

end Node

end Sqf
