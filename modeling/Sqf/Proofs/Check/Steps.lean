import Sqf.Check

/-!
# Steps of a check

An assignment is a binding in the scope that has the name already, if there is one.
An `if` is checked in three steps: its condition, the branch that is always there,
and the other branch. The type comes last, from the types of the two branches.
-/

namespace Sqf.Check

/-- An assignment binds in the scope where the name is found, else in its own. -/
theorem assign_eq (here : Nat) (name : String) (type : ValueType) (s : State) :
    assign here name type s = declare (match s.scopes.resolve here name with
      | some (index, _) => index
      | none => here) name type s := rfl

/-- The branch of an `if` that is always there. -/
def thenPart (cx : Context) (here : Nat) : Expr → Check ValueType
  | .block b => block cx here [] b
  | e => expr cx here e

/-- The type of an `if`, from the types of its branches. -/
def ifType (form : IfForm) (thenType : ValueType) (otherType : Option ValueType) : ValueType :=
  match form, otherType with
  | .thenBranch, some type => if type.same thenType then thenType else .any
  | _, _ => .any

theorem control_ifThen (cx : Context) (here : Nat) (condition : Option Expr) (form : IfForm)
    (branch : Expr) (otherwise : Option Expr) (span : Span) :
    control cx here (.ifThen condition form branch otherwise span) = (do
      match condition with
      | some e => do
        let type ← expr cx here e
        checkType .boolean type e.span
      | none => report (.missingCondition "if") span
      let thenType ← thenPart cx here branch
      let otherType ← branch? cx here otherwise
      return ifType form thenType otherType) := by
  unfold control
  -- What follows the condition is the same whether there is one or not.
  cases condition with
  | none =>
    refine bind_congr fun _ => ?_
    cases branch <;> refine bind_congr fun thenType => bind_congr fun otherType => ?_
    all_goals cases form <;> cases otherType <;> rfl
  | some e =>
    refine bind_congr fun _ => bind_congr fun _ => ?_
    cases branch <;> refine bind_congr fun thenType => bind_congr fun otherType => ?_
    all_goals cases form <;> cases otherType <;> rfl

end Sqf.Check
