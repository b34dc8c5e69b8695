import Mathlib.Data.List.Flatten
import Sqf.Proofs.Check.ScopeTree
import Sqf.Proofs.Parse.PassesLevel

/-!
# The numbers of code blocks

A code block takes the next number where it is opened, before the blocks inside of it. So
the blocks of a tree have rising numbers in the order of the walk
(`blockIds_parse`), also where blocks were read and thrown away: a number that was taken
is not given back.
-/

namespace Sqf

/-! ## Blocks of a tree -/

namespace Node

/-- The numbers of the blocks of a node and of all below it, in the order of the walk. -/
def blockIds (n : Node) : List Nat := (n.walk.filterMap block?).map Block.id

/-- The numbers of a node are its own, if it is a block, and then those of its children. -/
theorem blockIds_eq (n : Node) :
    n.blockIds = (n.block?.map Block.id).toList ++ n.children.flatMap blockIds := by
  have hchildren : n.children.flatMap blockIds =
      ((n.children.flatMap walk).filterMap block?).map Block.id := by
    rw [List.filterMap_flatMap, List.map_flatMap]
    rfl
  rw [hchildren, blockIds, walk_eq, List.filterMap_cons]
  cases n.block? <;> rfl

/-- A placeholder has none. -/
theorem blockIds_of_isError {n : Node} (h : n.isError = true) : n.blockIds = [] := by
  rw [blockIds_eq]
  unfold isError at h
  split at h
  · rfl
  · rfl
  · cases h

/-- Nor has a literal or a name. -/
theorem blockIds_of_isAtom {n : Node} (h : n.isAtom = true) : n.blockIds = [] := by
  rw [blockIds_eq]
  unfold isAtom at h
  split at h
  · rfl
  · rfl
  · rfl
  · cases h

/-- A construct is no block, and has the blocks of its parts. -/
theorem blockIds_of_control? {n : Node} {c : Control} (h : n.control? = some c) :
    n.blockIds = c.children.flatMap blockIds := by
  rw [blockIds_eq]
  rcases eq_of_control? h with rfl | rfl <;> rfl

/-- Two nodes with the same children have the same numbers, if they are the same block or none. -/
theorem blockIds_of_children {n m : Node} (hblock : n.block? = m.block?)
    (hchildren : n.children = m.children) : n.blockIds = m.blockIds := by
  rw [blockIds_eq, blockIds_eq, hblock, hchildren]

end Node

namespace Parse

/-! ## Numbers one after the other -/

/-- Numbers that rise, from `a` on and below `b`. -/
structure Rising (a b : Nat) (ids : List Nat) : Prop where
  le : a ≤ b
  sorted : ids.Pairwise (· < ·)
  bounds : ∀ i ∈ ids, a ≤ i ∧ i < b

namespace Rising

variable {a b c : Nat} {is js : List Nat}

theorem nil (h : a ≤ b) : Rising a b [] := ⟨h, .nil, by simp⟩

/-- Numbers that rise one after the other rise together. -/
theorem append (h : Rising a b is) (hjs : Rising b c js) : Rising a c (is ++ js) := by
  constructor
  · exact Nat.le_trans h.le hjs.le
  · rw [List.pairwise_append]
    refine ⟨h.sorted, hjs.sorted, ?_⟩
    intro i hi j hj
    exact Nat.lt_of_lt_of_le (h.bounds i hi).2 (hjs.bounds j hj).1
  · intro i hi
    rcases List.mem_append.1 hi with hi | hi
    · exact ⟨(h.bounds i hi).1, Nat.lt_of_lt_of_le (h.bounds i hi).2 hjs.le⟩
    · exact ⟨Nat.le_trans h.le (hjs.bounds i hi).1, (hjs.bounds i hi).2⟩

/-- A number that is taken on the way. -/
theorem singleton {i : Nat} (h : a ≤ i) (hlt : i < b) : Rising a b [i] := by
  constructor
  · omega
  · exact List.pairwise_singleton _ _
  · intro j hj
    rw [List.mem_singleton] at hj
    omega

/-- Between wider bounds as well. -/
theorem widen {d : Nat} (h : Rising b c is) (hle : a ≤ b) (hle' : c ≤ d) : Rising a d is :=
  ⟨Nat.le_trans hle (Nat.le_trans h.le hle'), h.sorted, fun i hi =>
    ⟨Nat.le_trans hle (h.bounds i hi).1, Nat.lt_of_lt_of_le (h.bounds i hi).2 hle'⟩⟩

/-- Some of them rise too. -/
theorem sublist (h : Rising a b is) (hjs : js.Sublist is) : Rising a b js :=
  ⟨h.le, h.sorted.sublist hjs, fun i hi => h.bounds i (hjs.subset hi)⟩

end Rising

/-- The blocks that are read between two states have the numbers that are taken between them. -/
theorem Passage.numbers {m : Manner} {s t : State} {ns : List Node} (h : Passage m s ns t) :
    Rising s.nextId t.nextId (ns.flatMap Node.blockIds) := by
  -- One case for each way in which nodes are made; only a block takes a number.
  induction h with
  | pass h => exact .nil h.nextId
  | append _ _ ih ih' =>
    rw [List.flatMap_append]
    exact ih.append ih'
  | sublist _ hsub ih => exact ih.sublist (hsub.flatMap _)
  | part _ ih => exact ih
  | skipped hn hspan hreported hends =>
    rw [List.flatMap_singleton, Node.blockIds_of_isError hn]
    exact .nil (Passage.skipped hn hspan hreported hends).reaches.nextId
  | @failed s d _ =>
    rw [List.flatMap_singleton, Node.blockIds_of_isError rfl]
    exact .nil (reaches_report d s).nextId
  | @atom s n hn _ =>
    rw [List.flatMap_singleton, Node.blockIds_of_isAtom hn]
    exact .nil (reaches_advance s).nextId
  | @array s t _ _ ih =>
    rw [List.flatMap_singleton, Node.blockIds_eq]
    exact ih.widen (reaches_advance s).nextId (reaches_advance t).nextId
  | @unary s t _ _ ih =>
    rw [List.flatMap_singleton, Node.blockIds_eq]
    exact ih.widen (reaches_advance s).nextId (Nat.le_refl _)
  | @binary s t u left right _ _ ih ih' =>
    have hboth := ih.append (ih'.widen (reaches_advance t).nextId (Nat.le_refl _))
    rw [List.flatMap_singleton, Node.blockIds_eq]
    simpa [joined, Node.block?, Node.children] using hboth
  | @control s t c n hn _ _ ih =>
    rw [List.flatMap_singleton, Node.blockIds_of_control? hn]
    exact ih.widen (reaches_advance s).nextId (Nat.le_refl _)
  | @unbranched s t u d n hn hreported =>
    have hreaches := (Passage.unbranched hn hreported).reaches
    rw [List.flatMap_singleton, Node.blockIds_of_control? hn]
    show Rising s.nextId t.nextId ([Node.expr (.error _)].flatMap Node.blockIds)
    rw [List.flatMap_singleton, Node.blockIds_of_isError rfl]
    exact .nil hreaches.nextId
  | expression _ ih => rwa [List.flatMap_singleton, Node.blockIds_eq]
  | @assignment s t _ _ _ _ ih =>
    rw [List.flatMap_singleton, Node.blockIds_eq]
    exact ih.widen (reaches_advance s).nextId (Nat.le_refl _)
  | block _ hid hlt _ hclosed _ ih =>
    rw [List.flatMap_singleton, Node.blockIds_eq]
    exact ((Rising.singleton hid hlt).append ih).widen (Nat.le_refl _) hclosed.nextId
  | @blockExpr s t b _ ih =>
    have hids : (Node.expr (.block b)).blockIds = (Node.block b).blockIds :=
      Node.blockIds_of_children rfl rfl
    rw [List.flatMap_singleton] at ih ⊢
    rwa [hids]

end Parse

/-- How many code blocks are opened while a script is read, those that are thrown away again among
them. -/
def blocksOpened (table : Table) (tokens : List Token) : Nat :=
  ((Parse.level table Parse.maxNesting).statements .file (.initial tokens)).next.nextId - 1

/-- The blocks of a script have numbers that were taken while it was read. -/
theorem rising_parse (table : Table) (tokens : List Token) :
    Parse.Rising 1 (blocksOpened table tokens + 1)
      (Node.program (parse table tokens).program).blockIds := by
  obtain ⟨ns, hreads, hns⟩ := Parse.Level.statements_passes
    (Parse.level_passes table Parse.maxNesting) (.initial tokens) .file
  have hrising := hreads.numbers
  rw [(Parse.initial_found tokens).2.1, hns] at hrising
  have hids : (Node.program (parse table tokens).program).blockIds =
      ((parse table tokens).program.statements.map .stmt).flatMap Node.blockIds :=
    Node.blockIds_eq _
  rw [hids, blocksOpened, Nat.sub_add_cancel hrising.le]
  exact hrising

/-- The blocks of a script that was read have numbers from 1 on, which rise in the order of the
walk. -/
theorem blockIds_parse (table : Table) (tokens : List Token) :
    let ids := (Node.program (parse table tokens).program).blockIds
    ids.Pairwise (· < ·) ∧ ∀ i ∈ ids, 1 ≤ i := by
  intro ids
  have hrising := rising_parse table tokens
  exact ⟨hrising.sorted, fun i hi => (hrising.bounds i hi).1⟩

/-- A walk meets the blocks of a script in the order of their numbers. No two blocks have the same
number, and none has a number beyond those of the blocks that were opened. -/
theorem walk_numbers_blocks (table : Table) (tokens : List Token) :
    let blocks := (Node.program (parse table tokens).program).walk.filterMap Node.block?
    let ids := blocks.map Block.id
    ids.Pairwise (· < ·) ∧ ids.Nodup ∧ ∀ i ∈ ids, 1 ≤ i ∧ i ≤ blocksOpened table tokens := by
  intro blocks ids
  have hrising : Parse.Rising 1 (blocksOpened table tokens + 1) ids := rising_parse table tokens
  refine ⟨hrising.sorted, hrising.sorted.imp Nat.ne_of_lt, ?_⟩
  intro i hi
  obtain ⟨hle, hlt⟩ := hrising.bounds i hi
  exact ⟨hle, Nat.le_of_lt_succ hlt⟩

/-- The array cannot be read, so the statement is thrown away with its block. The block behind it
is the second one. -/
theorem walk_numbers_blocks_discarded :
    let tokens := (scan "[\x7b1\x7d; \x7b2\x7d").tokens
    let blocks := (Node.program (parse .empty tokens).program).walk.filterMap Node.block?
    2 ∈ blocks.map Block.id ∧ 1 ∉ blocks.map Block.id ∧ 2 ≤ blocksOpened .empty tokens := by
  intro tokens blocks
  have hids : blocks.map Block.id = [2] := by decide +kernel
  have hmem : 2 ∈ blocks.map Block.id := by simp [hids]
  refine ⟨hmem, by simp [hids], ?_⟩
  exact ((walk_numbers_blocks .empty tokens).2.2 2 hmem).2

end Sqf
