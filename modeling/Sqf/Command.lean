import Sqf.ValueType.Accepts

/-!
# Commands

A command has overloads. Each overload is a signature: the number of operands,
what each operand has to be, and what the command yields. An operand on the
left needs one on the right.
-/

namespace Sqf

/-- How many operands a command is used with. -/
inductive Arity where
  | nular
  | unary
  | binary
deriving DecidableEq, Inhabited, Repr

namespace Arity

/-- The name shown in messages. -/
def name : Arity → String
  | nular => "nular"
  | unary => "unary"
  | binary => "binary"

/-- Number of operands. -/
def operands : Arity → Nat
  | nular => 0
  | unary => 1
  | binary => 2

end Arity

/-- An operand of a command. An unbounded one may also be given as an array of any number
of values of its type. -/
structure Parameter where
  type : ValueType
  description : String := ""
  unbounded : Bool := false

namespace Parameter

/-- Whether a value of the supplied type may be this operand. -/
def accepts (p : Parameter) (supplied : ValueType) : Bool :=
  p.type.accepts supplied ||
    (p.unbounded && (ValueType.expanded ⟨[p.type], true, 0⟩).accepts supplied)

end Parameter

/-- One overload of a command. A unary command has its operand on the right. -/
structure Signature where
  name : String
  arity : Arity
  left : Option Parameter
  right : Option Parameter
  returns : ValueType

namespace Signature

/-- The operands from left to right. -/
def parameters (s : Signature) : List Parameter := s.left.toList ++ s.right.toList

/-- Index of the first supplied type that is refused. Where the numbers of operands
differ, it is the first operand that only one side has. -/
def mismatch? (s : Signature) (supplied : List ValueType) : Option Nat :=
  if s.parameters.length = supplied.length then
    (s.parameters.zip supplied).findIdx? fun (p, t) => !p.accepts t
  else some (min s.parameters.length supplied.length)

/-- Whether the overload takes operands of these types. -/
def takes (s : Signature) (supplied : List ValueType) : Bool := (s.mismatch? supplied).isNone

end Signature

end Sqf
