import Sqf.Tree

/-!
# Walking a tree

A node is any part of a tree: the program, a statement, an expression, or a
block that is the body of a construct. `Node.children` lists the parts of a
node in source order, and `Node.walk` lists a node and all below it, each one
before its children.
-/

namespace Sqf

/-- A part of a tree. -/
inductive Node where
  | program (p : Program)
  | stmt (s : Stmt)
  | expr (e : Expr)
  | block (b : Block)

namespace ForHeader

/-- The expressions of a loop header that are there, in order. -/
def parts : ForHeader → List Expr
  | range _ first last step => first.toList ++ last.toList ++ step.toList
  | classic init condition step => init.toList ++ condition.toList ++ step.toList
  | missing => []

end ForHeader

namespace Control

/-- The parts of a construct that are there, in order. -/
def children : Control → List Node
  | ifThen condition _ branch otherwise _ =>
    condition.toList.map .expr ++ .expr branch :: otherwise.toList.map .expr
  | whileDo condition body _ => condition.toList.map .expr ++ body.toList.map .block
  | forDo header body _ => header.parts.map .expr ++ body.toList.map .block
  | switchDo subject body _ => subject.toList.map .expr ++ body.toList.map .block
  | case _ condition block _ => condition.toList.map .expr ++ block.toList.map .block

end Control

namespace Node

def span : Node → Span
  | program p => p.span
  | stmt s => s.span
  | expr e => e.span
  | block b => b.span

/-- The parts directly below a node, in source order. A block that stands as an expression
is that expression, so its statements are the children. -/
def children : Node → List Node
  | program p => p.statements.map stmt
  | block b => b.statements.map stmt
  | stmt (.expression e) => [expr e]
  | stmt (.assignment _ _ value _) => [expr value]
  | stmt (.control c) => c.children
  | stmt (.error _) => []
  | expr (.number _ _) => []
  | expr (.string _ _) => []
  | expr (.name _) => []
  | expr (.array elements _) => elements.map expr
  | expr (.block b) => b.statements.map stmt
  | expr (.unary _ operand _) => [expr operand]
  | expr (.binary _ left _ right _) => [expr left, expr right]
  | expr (.control c) => c.children
  | expr (.error _) => []

/-- Whether the node is a placeholder for what could not be read. -/
def isError : Node → Bool
  | stmt (.error _) => true
  | expr (.error _) => true
  | _ => false

/-- A measure that grows from a node to the one above it. -/
noncomputable def size : Node → Nat
  | program p => sizeOf p
  | stmt s => sizeOf s
  | expr e => sizeOf e
  | block b => sizeOf b

theorem size_lt_of_mem_statements {ss : List Stmt} {n : Node} (h : n ∈ ss.map stmt) :
    n.size < sizeOf ss := by
  obtain ⟨s, hs, rfl⟩ := List.mem_map.1 h
  exact List.sizeOf_lt_of_mem hs

theorem size_lt_of_mem_exprs {es : List Expr} {n : Node} (h : n ∈ es.map expr) :
    n.size < sizeOf es := by
  obtain ⟨e, he, rfl⟩ := List.mem_map.1 h
  exact List.sizeOf_lt_of_mem he

theorem size_lt_of_mem_expr? {e : Option Expr} {n : Node} (h : n ∈ e.toList.map expr) :
    n.size < sizeOf e := by
  cases e with
  | none => simp at h
  | some e => simp at h; subst h; simp [size]

theorem size_lt_of_mem_block? {b : Option Block} {n : Node} (h : n ∈ b.toList.map block) :
    n.size < sizeOf b := by
  cases b with
  | none => simp at h
  | some b => simp at h; subst h; simp [size]

theorem size_lt_of_mem_parts {header : ForHeader} {n : Node} (h : n ∈ header.parts.map expr) :
    n.size < sizeOf header := by
  cases header with
  | range name first last step =>
    simp only [ForHeader.parts, List.map_append, List.mem_append] at h
    rcases h with (h | h) | h <;> have := size_lt_of_mem_expr? h <;> simp <;> omega
  | classic init condition step =>
    simp only [ForHeader.parts, List.map_append, List.mem_append] at h
    rcases h with (h | h) | h <;> have := size_lt_of_mem_expr? h <;> simp <;> omega
  | missing => simp [ForHeader.parts] at h

theorem size_lt_of_mem_control {c : Control} {n : Node} (h : n ∈ c.children) :
    n.size < sizeOf c := by
  cases c with
  | ifThen condition form branch otherwise span =>
    simp only [Control.children, List.mem_append, List.mem_cons] at h
    rcases h with h | rfl | h
    · have := size_lt_of_mem_expr? h; simp; omega
    · simp [size]; omega
    · have := size_lt_of_mem_expr? h; simp; omega
  | whileDo condition body span =>
    simp only [Control.children, List.mem_append] at h
    rcases h with h | h
    · have := size_lt_of_mem_expr? h; simp; omega
    · have := size_lt_of_mem_block? h; simp; omega
  | forDo header body span =>
    simp only [Control.children, List.mem_append] at h
    rcases h with h | h
    · have := size_lt_of_mem_parts h; simp; omega
    · have := size_lt_of_mem_block? h; simp; omega
  | switchDo subject body span =>
    simp only [Control.children, List.mem_append] at h
    rcases h with h | h
    · have := size_lt_of_mem_expr? h; simp; omega
    · have := size_lt_of_mem_block? h; simp; omega
  | case isDefault condition block span =>
    simp only [Control.children, List.mem_append] at h
    rcases h with h | h
    · have := size_lt_of_mem_expr? h; simp; omega
    · have := size_lt_of_mem_block? h; simp; omega

theorem size_lt_of_mem_block {b : Block} {n : Node} (h : n ∈ b.statements.map stmt) :
    n.size < sizeOf b := by
  cases b with
  | mk id statements span =>
    have : n.size < sizeOf statements := size_lt_of_mem_statements h
    simp
    omega

/-- Every part of a node is smaller than the node. -/
theorem size_lt_of_mem_children {n m : Node} (h : n ∈ m.children) : n.size < m.size := by
  match m with
  | program ⟨statements, span⟩ =>
    have : n.size < sizeOf statements := size_lt_of_mem_statements h
    have hs : (program ⟨statements, span⟩).size = 1 + sizeOf statements + sizeOf span := by
      simp [size]
    omega
  | block b => exact size_lt_of_mem_block h
  | stmt (.expression e) => simp only [children, List.mem_singleton] at h; subst h; simp [size]
  | stmt (.assignment _ _ value _) =>
    simp only [children, List.mem_singleton] at h; subst h; simp [size]; omega
  | stmt (.control c) => have := size_lt_of_mem_control h; simp [size] at this ⊢; omega
  | stmt (.error _) => simp [children] at h
  | expr (.number _ _) => simp [children] at h
  | expr (.string _ _) => simp [children] at h
  | expr (.name _) => simp [children] at h
  | expr (.array elements _) =>
    have := size_lt_of_mem_exprs h; simp [size] at this ⊢; omega
  | expr (.block b) => have := size_lt_of_mem_block h; simp [size] at this ⊢; omega
  | expr (.unary _ operand _) =>
    simp only [children, List.mem_singleton] at h; subst h; simp [size]; omega
  | expr (.binary _ left _ right _) =>
    simp only [children, List.mem_cons, List.not_mem_nil, or_false] at h
    rcases h with rfl | rfl <;> simp [size] <;> omega
  | expr (.control c) => have := size_lt_of_mem_control h; simp [size] at this ⊢; omega
  | expr (.error _) => simp [children] at h

/-- A node and everything below it, parents before children. -/
def walk (n : Node) : List Node :=
  n :: n.children.attach.flatMap fun ⟨m, _⟩ => m.walk
termination_by n.size
decreasing_by exact size_lt_of_mem_children ‹_›

theorem walk_eq (n : Node) : n.walk = n :: n.children.flatMap walk := by
  rw [walk]
  simp

/-- The spans of all placeholders. -/
def errorSpans (n : Node) : List Span := (n.walk.filter isError).map span

/-- Number of nodes on the longest way down from a node. -/
def height (n : Node) : Nat :=
  (n.children.attach.map fun ⟨m, _⟩ => m.height).foldl max 0 + 1
termination_by n.size
decreasing_by exact size_lt_of_mem_children ‹_›

end Node

namespace Program

/-- Whether some part of the script could not be read. -/
def hasErrors (p : Program) : Bool := !(Node.program p).errorSpans.isEmpty

end Program

end Sqf
