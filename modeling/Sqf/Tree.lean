import Sqf.Double
import Sqf.Span
import Sqf.Token

/-!
# Syntax trees

A script is a list of statements. A statement is an expression, an assignment
or a control construct, and control constructs are expressions as well. Code
blocks hold statements and carry a number of their own, by which the scope of
their locals is known.

Where the text could not be read the tree has placeholders (`error`), and parts
of a control construct that are missing are absent.
-/

namespace Sqf

/-- A name as it is written, and where. -/
structure Name where
  text : String
  span : Span
deriving DecidableEq, Inhabited, Repr

namespace Name

/-- The name in lower case, by which it is looked up. -/
def normalized (n : Name) : String := n.text.toLower

/-- Whether the name is one of a local variable. -/
def isLocal (n : Name) : Bool := isLocalName n.text

end Name

/-- What joins two operands: a command or symbol, or one of the connectives. -/
inductive Joint where
  | command
  | and
  | or
deriving DecidableEq, Inhabited, Repr

/-- What follows the condition of an `if`. -/
inductive IfForm where
  | thenBranch
  | exitWith
deriving DecidableEq, Inhabited, Repr

mutual

inductive Expr where
  | number (value : Double) (span : Span)
  | string (value : String) (span : Span)
  /-- A name that takes no operand: a variable, or a command without operands. -/
  | name (n : Name)
  | array (elements : List Expr) (span : Span)
  | block (b : Block)
  | unary (command : Name) (operand : Expr) (span : Span)
  | binary (joint : Joint) (left : Expr) (command : Name) (right : Expr) (span : Span)
  | control (c : Control)
  | error (span : Span)

/-- Statements between braces. -/
structure Block where
  id : Nat
  statements : List Stmt
  span : Span

inductive Stmt where
  | expression (e : Expr)
  | assignment (isPrivate : Bool) (target : Name) (value : Expr) (span : Span)
  | control (c : Control)
  | error (span : Span)

inductive Control where
  /-- Written `if CONDITION then A else B`, or `if CONDITION exitWith A`. -/
  | ifThen (condition : Option Expr) (form : IfForm) (branch : Expr) (otherwise : Option Expr)
      (span : Span)
  /-- Written `while CONDITION do BODY`. -/
  | whileDo (condition : Option Expr) (body : Option Block) (span : Span)
  /-- Written `for HEADER do BODY`. -/
  | forDo (header : ForHeader) (body : Option Block) (span : Span)
  /-- Written `switch SUBJECT do BODY`. -/
  | switchDo (subject : Option Expr) (body : Option Block) (span : Span)
  /-- Written `case CONDITION: BLOCK`, or `default BLOCK`; both parts may be left out. -/
  | case (isDefault : Bool) (condition : Option Expr) (block : Option Block) (span : Span)

/-- What a `for` loop runs over. -/
inductive ForHeader where
  /-- Written `NAME from FIRST to LAST step STEP`. -/
  | range (loopVariable : Name) (first last step : Option Expr)
  /-- Written `[INIT, CONDITION, STEP]`. -/
  | classic (init condition step : Option Expr)
  | missing

end

instance : Inhabited Expr := ⟨.error {}⟩
instance : Inhabited Stmt := ⟨.error {}⟩
instance : Inhabited Block := ⟨⟨0, [], {}⟩⟩

namespace Control

def span : Control → Span
  | ifThen _ _ _ _ span => span
  | whileDo _ _ span => span
  | forDo _ _ span => span
  | switchDo _ _ span => span
  | case _ _ _ span => span

end Control

namespace Expr

def span : Expr → Span
  | number _ span => span
  | string _ span => span
  | name n => n.span
  | array _ span => span
  | block b => b.span
  | unary _ _ span => span
  | binary _ _ _ _ span => span
  | control c => c.span
  | error span => span

end Expr

namespace Stmt

def span : Stmt → Span
  | expression e => e.span
  | assignment _ _ _ span => span
  | control c => c.span
  | error span => span

end Stmt

/-- A script that has been read. -/
structure Program where
  statements : List Stmt
  span : Span

end Sqf
