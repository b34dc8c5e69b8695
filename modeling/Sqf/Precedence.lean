import Sqf.Command.Table

/-!
# Precedence

How tightly operators bind. Most command words share one tier; a few bind like
the arithmetic symbols. Whether a name is an operator at all depends on the
command table: it is one if the table has it with two operands.
-/

namespace Sqf

/-- The tiers from loosest to tightest. `lowest` is below all operators; prefix commands
take their operand at `unary`. -/
inductive Tier where
  | lowest
  | or
  | and
  | comparison
  | command
  | additive
  | multiplicative
  | power
  | unary
  | select
deriving DecidableEq, Inhabited, Repr

namespace Tier

/-- Position of a tier from the loosest one on. -/
def rank : Tier → Nat
  | lowest => 0
  | or => 1
  | and => 2
  | comparison => 3
  | command => 4
  | additive => 5
  | multiplicative => 6
  | power => 7
  | unary => 8
  | select => 9

/-- Tier `t` binds more tightly than `u`. -/
def tighter (t u : Tier) : Bool := u.rank < t.rank

/-- The tier of a command word with two operands, its name being in lower case. -/
def ofWord (name : String) : Tier :=
  if name == "max" || name == "min" then additive
  else if name == "mod" || name == "atan2" then multiplicative
  else command

/-- The tier of a symbol or connective. -/
def ofKind? : Kind → Option Tier
  | .or => some or
  | .and => some and
  | .equals | .notEquals | .less | .lessEquals | .greater | .greaterEquals | .configPath =>
    some comparison
  | .plus | .dash => some additive
  | .star | .slash | .percent => some multiplicative
  | .caret => some power
  | .hash => some select
  | _ => none

end Tier

namespace Table

/-- The tier of a token between two operands, if it is an operator. -/
def tier? (table : Table) (t : Token) : Option Tier :=
  if t.kind = .identifier then
    if table.has t.value .binary then some (.ofWord t.normalized) else none
  else Tier.ofKind? t.kind

/-- Whether the tokens can begin the operand of a prefix command. A name that the table has
with two operands does so only if it also takes one, and what follows begins an operand in
its turn, as `count` does in `hint count _list`. -/
def startsOperand (table : Table) : List Token → Bool
  | [] => false
  | t :: ts =>
    match t.kind with
    | .number | .string | .openParen | .openBracket | .openCurly | .not => true
    | .identifier =>
      if isLocalName t.value || !table.has t.value .binary then true
      else if table.has t.value .unary then startsOperand table ts
      else false
    | _ => false

end Table

end Sqf
