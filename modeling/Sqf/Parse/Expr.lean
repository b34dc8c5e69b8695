import Sqf.Numeral
import Sqf.Parse.Control
import Sqf.Parse.Repeat

/-!
# Reading expressions

An expression is an operand followed by operators with operands of their own.
An operator is taken as long as it binds more tightly than the tier that is
asked for, and its right operand is read at its own tier, so operators of one
tier group to the left.
-/

namespace Sqf.Parse

/-- Two operands joined by an operator. -/
def joined (op : Token) (left right : Expr) : Expr :=
  let joint := match op.kind with
    | .and => .and
    | .or => .or
    | _ => .command
  .binary joint left ⟨op.value, op.span⟩ right (left.span.join right.span)

/-- A command in front of its operand. -/
def applied (command : Token) (operand : Expr) : Expr :=
  .unary ⟨command.value, command.span⟩ operand (command.span.join operand.span)

namespace Level

/-- A number. -/
def numberLiteral : Attempt Expr := do
  let s ← (state : Parse State)
  let t := s.token
  match Numeral.read? t.value with
  | some value =>
    let _ ← (advance : Parse Token)
    return .number value t.span
  | none => throw ⟨.malformedNumber t.value, t.span⟩

/-- A command in front of its operand. -/
def prefixed (inner : Level) : Attempt Expr := do
  let command ← (advance : Parse Token)
  let operand ← inner.expr .unary
  return applied command operand

/-- A name: a command in front of an operand if one follows, else it stands for itself.
Locals take no operands. -/
def named (inner : Level) (table : Table) : Attempt Expr := do
  let t ← (advance : Parse Token)
  let s ← (state : Parse State)
  if !isLocalName t.value && table.startsOperand s.rest then
    let operand ← inner.expr .unary
    return applied t operand
  else return .name ⟨t.value, t.span⟩

/-- An expression in parentheses, which leave no trace in the tree. -/
def grouped (inner : Level) : Attempt Expr := do
  let _ ← (advance : Parse Token)
  let e ← inner.expr .lowest
  let _ ← expect .closeParen "`)`"
  return e

/-- An array literal. -/
def arrayLiteral (inner : Level) : Attempt Expr := do
  let start ← (advance : Parse Token)
  let es ← commaList .closeBracket "`,` or `]`" (inner.expr .lowest)
  let _ ← (advance : Parse Token)
  let span ← (spanFrom start.span : Parse Span)
  return .array es span

/-- An operand: all that an expression can start with. -/
def operand (inner : Level) (table : Table) : Attempt Expr := do
  match ← (kind : Parse Kind) with
  | .number => numberLiteral
  | .string =>
    let t ← (advance : Parse Token)
    return .string t.value t.span
  | .identifier => inner.named table
  | .openParen => inner.grouped
  | .openBracket => inner.arrayLiteral
  | .openCurly =>
    let b ← (inner.block : Parse Block)
    return .block b
  | .not | .dash | .plus | .privateWord => inner.prefixed
  | k =>
    if startsControl k then
      let c ← (inner.control : Parse Control)
      return .control c
    else failUnexpected "an expression"

/-- The operators that follow an operand and bind more tightly than `limit`. -/
def operators (inner : Level) (table : Table) (limit : Tier) (left : Expr) : Attempt Expr :=
  fun s =>
  match h : s.rest with
  | [] => ⟨.ok left, s, List.suffix_refl _⟩
  | op :: ts =>
    match table.tier? op with
    | none => ⟨.ok left, s, List.suffix_refl _⟩
    | some tier =>
      if tier.tighter limit then
        let right := (inner.expr tier).run { s with rest := ts, lastEnd := op.span.stop }
        have hright : right.next.rest <:+ s.rest := right.suffix.trans (h ▸ List.suffix_cons op ts)
        match right.value with
        | .error d => ⟨.error d, right.next, hright⟩
        | .ok e =>
          let others := operators inner table limit (joined op left e) right.next
          ⟨others.value, others.next, others.suffix.trans hright⟩
      else ⟨.ok left, s, List.suffix_refl _⟩
termination_by s => s.rest.length
decreasing_by
  rw [h]
  exact Nat.lt_succ_of_le right.suffix.length_le

/-- An expression whose operators bind more tightly than `limit`. -/
def expression (inner : Level) (table : Table) (limit : Tier) : Attempt Expr := do
  let left ← inner.operand table
  inner.operators table limit left

end Level

end Sqf.Parse
