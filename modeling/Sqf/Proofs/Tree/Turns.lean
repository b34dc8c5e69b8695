import Sqf.Proofs.Tree.Node

/-!
# Ways down a tree

A chain of operators is a tree that grows to the left: `a + b + c` has `a + b` as its left
operand. Every other step down from a node is a turn. `turns` counts the turns on a way
down from a node, and `longestChain` the steps between two of them. Together they bound
the height (`height_le`).
-/

namespace Sqf

/-- Number of operators one in the left operand of the other. -/
def Expr.chain : Expr → Nat
  | .binary _ left _ _ _ => left.chain + 1
  | _ => 0

namespace Node

def chain : Node → Nat
  | expr e => e.chain
  | _ => 0

/-- The left operand of an operator. -/
def leftOperand : Node → List Node
  | expr (.binary _ left _ _ _) => [expr left]
  | _ => []

/-- The children of a node, without the left operand of an operator. -/
def branches : Node → List Node
  | expr (.binary _ _ _ right _) => [expr right]
  | n => n.children

/-- The children of a node are its left operand and its branches. -/
theorem children_eq (n : Node) : n.children = n.leftOperand ++ n.branches := by
  unfold leftOperand branches
  split <;> simp_all [children]

theorem mem_children_iff {n m : Node} : m ∈ n.children ↔ m ∈ n.leftOperand ∨ m ∈ n.branches := by
  rw [children_eq, List.mem_append]

/-- The chain of a node is one longer than that of its left operand. -/
theorem chain_of_mem_leftOperand {n m : Node} (h : m ∈ n.leftOperand) :
    n.chain = m.chain + 1 := by
  unfold leftOperand at h
  split at h
  · rw [List.mem_singleton] at h
    subst h
    simp [chain, Expr.chain]
  · cases h

/-- A chain is a way down, so it is shorter than the tree is high. -/
theorem chain_lt_height (e : Expr) : e.chain < (expr e).height := by
  fun_induction Expr.chain e with
  | case1 joint left command right span ih =>
    have hheight : (expr left).height < (expr (.binary joint left command right span)).height :=
      height_lt_of_mem_children (by simp [children])
    omega
  | case2 e h => exact height_pos _

/-- The most turns that a way down from the node takes: steps that do not go from an operator to
its left operand. -/
def turns (n : Node) : Nat :=
  max ((n.leftOperand.attach.map fun ⟨m, _⟩ => m.turns).foldl max 0)
    ((n.branches.attach.map fun ⟨m, _⟩ => m.turns + 1).foldl max 0)
termination_by n.size
decreasing_by
  · exact size_lt_of_mem_children (mem_children_iff.2 (.inl ‹_›))
  · exact size_lt_of_mem_children (mem_children_iff.2 (.inr ‹_›))

/-- The turns of a node are those of its left operand, or one more than those of a branch. -/
theorem turns_le_iff {n : Node} {k : Nat} :
    n.turns ≤ k ↔ (∀ m ∈ n.leftOperand, m.turns ≤ k) ∧ ∀ m ∈ n.branches, m.turns < k := by
  rw [turns, Nat.max_le, foldl_max_le_iff, foldl_max_le_iff]
  simp only [Nat.zero_le, true_and, List.map_subtype, List.unattach_attach, List.forall_mem_map,
    Nat.succ_le_iff]

theorem turns_le_of_mem_leftOperand {n m : Node} (h : m ∈ n.leftOperand) : m.turns ≤ n.turns :=
  (turns_le_iff.1 (Nat.le_refl _)).1 m h

theorem turns_lt_of_mem_branches {n m : Node} (h : m ∈ n.branches) : m.turns < n.turns :=
  (turns_le_iff.1 (Nat.le_refl _)).2 m h

theorem turns_le_of_mem_children {n m : Node} (h : m ∈ n.children) : m.turns ≤ n.turns := by
  rcases mem_children_iff.1 h with h | h
  · exact turns_le_of_mem_leftOperand h
  · exact Nat.le_of_lt (turns_lt_of_mem_branches h)

/-- Number of operators in the longest chain of a tree. -/
def longestChain (n : Node) : Nat := (n.walk.map chain).foldl max 0

/-- No chain is longer than the longest one. -/
theorem chain_le_longestChain {n m : Node} (h : m ∈ n.walk) : m.chain ≤ n.longestChain :=
  le_foldl_max 0 (List.mem_map_of_mem h)

/-- With no chain longer than `c`, at most `c + 1` nodes lie between one turn and the next. -/
theorem height_le_of_chain {c : Nat} (n : Node) (h : ∀ m ∈ n.walk, m.chain ≤ c) :
    n.height ≤ n.turns * (c + 1) + n.chain + 1 := by
  rw [height_eq]
  refine Nat.succ_le_succ (foldl_max_le_iff.2 ⟨Nat.zero_le _, ?_⟩)
  intro height hheight
  obtain ⟨m, hm, rfl⟩ := List.mem_map.1 hheight
  have hwalk := walk_subset_of_mem_children hm
  -- By induction on the tree: the highest child is the left operand or a branch.
  have ih := height_le_of_chain m fun k hk => h k (hwalk hk)
  rcases mem_children_iff.1 hm with hleft | hbranch
  · -- The chain goes on: no turn is taken, and what is left of the chain is one shorter.
    rw [chain_of_mem_leftOperand hleft]
    have hturns := Nat.mul_le_mul_right (c + 1) (turns_le_of_mem_leftOperand hleft)
    omega
  · -- The turn pays for the whole chain that starts here.
    have hchain : m.chain ≤ c := h m (hwalk (mem_walk_self m))
    have hless := Nat.succ_le_of_lt (turns_lt_of_mem_branches hbranch)
    have hturns := Nat.mul_le_mul_right (c + 1) hless
    rw [Nat.succ_mul] at hturns
    omega
termination_by n.size
decreasing_by exact size_lt_of_mem_children hm

/-- A tree is no higher than its turns and its chains allow. -/
theorem height_le (n : Node) : n.height ≤ (n.turns + 1) * (n.longestChain + 1) := by
  have hheight := height_le_of_chain n fun m hm => chain_le_longestChain hm
  have hchain : n.chain ≤ n.longestChain := chain_le_longestChain (mem_walk_self n)
  rw [Nat.succ_mul]
  omega

end Node

end Sqf
