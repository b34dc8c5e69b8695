import Sqf.Check

/-!
# Reading and binding by position

What a script reads and binds, in the order of evaluation and without types:
`events` lists it, each event with the scope it stands in. A read is undefined if
nothing before it binds the name in its scope or in one around it; `undefinedReads`
collects these reads.
-/

namespace Sqf.Check

/-! ## Events -/

/-- What happens to a local. A scope is given by its number and those of the scopes around it,
from the inside out; scopes are numbered as they are opened. -/
inductive Event where
  | read (n : Name) (scope : List Nat)
  | bind (name : String) (scope : List Nat)

/-- Whether an event binds a name, given in lower case, in a scope or around it. -/
def Event.binds (key : String) (scope : List Nat) : Event → Bool
  | .bind name outer => name.toLower == key && outer.isSuffixOf scope
  | .read _ _ => false

/-- The reads of a list of events, behind others, that nothing before them makes defined. -/
def undefinedReads (past : List Event) : List Event → List Name
  | [] => []
  | .bind name scope :: events => undefinedReads (past ++ [.bind name scope]) events
  | .read n scope :: events =>
    let others := undefinedReads (past ++ [.read n scope]) events
    if magicVariables.contains n.normalized || past.any (Event.binds n.normalized scope) then others
    else n :: others

/-- How far a walk through a script has come. -/
structure Walk where
  /-- Number of scopes that were opened. -/
  opened : Nat := 1
  /-- What has been read and bound so far. -/
  events : List Event := []

namespace Walk

def read (scope : List Nat) (n : Name) (w : Walk) : Walk :=
  if n.isLocal then { w with events := w.events ++ [.read n scope] } else w

def bind (scope : List Nat) (name : String) (w : Walk) : Walk :=
  { w with events := w.events ++ [.bind name scope] }

def bindAll (scope : List Nat) : List String → Walk → Walk
  | [], w => w
  | name :: names, w => bindAll scope names (w.bind scope name)

def openScope (w : Walk) : Walk := { w with opened := w.opened + 1 }

mutual

def expr (scope : List Nat) : Expr → Walk → Walk
  | .name n, w => w.read scope n
  | .array elements _, w => exprs scope elements w
  | .block b, w => block scope [] b w
  | .unary command operand _, w =>
    expr scope operand (w.bindAll scope (declaredNames command operand))
  | .binary _ left command right _, w =>
    (expr scope right (expr scope left w)).bindAll scope (declaredNames command right)
  | .control c, w => control scope c w
  | .number _ _, w | .string _ _, w | .error _, w => w

def exprs (scope : List Nat) : List Expr → Walk → Walk
  | [], w => w
  | e :: es, w => exprs scope es (expr scope e w)

def expr? (scope : List Nat) : Option Expr → Walk → Walk
  | none, w => w
  | some e, w => expr scope e w

/-- A block opens a scope, in which some locals are bound at first. -/
def block (scope : List Nat) (locals : List String) : Block → Walk → Walk
  | ⟨_, statements, _⟩, w =>
    stmts (w.opened :: scope) statements (w.openScope.bindAll (w.opened :: scope) locals)

def block? (scope : List Nat) (locals : List String) : Option Block → Walk → Walk
  | none, w => w
  | some b, w => block scope locals b w

def stmt (scope : List Nat) : Stmt → Walk → Walk
  | .expression e, w => expr scope e w
  | .assignment isPrivate target value _, w =>
    if isPrivate || target.isLocal then (expr scope value w).bind scope target.text
    else expr scope value w
  | .control c, w => control scope c w
  | .error _, w => w

def stmts (scope : List Nat) : List Stmt → Walk → Walk
  | [], w => w
  | s :: ss, w => stmts scope ss (stmt scope s w)

/-- The first part of a loop header. The statements of a block stand in the scope of the loop. -/
def init? (scope : List Nat) : Option Expr → Walk → Walk
  | some (.block ⟨_, statements, _⟩), w => stmts scope statements w
  | some e, w => expr scope e w
  | none, w => w

def control (scope : List Nat) : Control → Walk → Walk
  | .ifThen condition _ branch otherwise _, w =>
    expr? scope otherwise (expr scope branch (expr? scope condition w))
  | .whileDo condition body _, w => block? scope [] body (expr? scope condition w)
  | .forDo (.range name first last step) body _, w =>
    block? scope [name.text] body (expr? scope step (expr? scope last (expr? scope first w)))
  | .forDo (.classic init condition step) body _, w =>
    let loop := w.opened :: scope
    block? loop [] body (expr? loop step (expr? loop condition (init? loop init w.openScope)))
  | .forDo .missing body _, w => block? scope [] body w
  | .switchDo subject body _, w => block? scope [] body (expr? scope subject w)
  | .case _ condition b _, w => block? scope [] b (expr? scope condition w)

end

end Walk

/-- What is read and bound in a script, in the order of evaluation. Scope 0 is that of the
script. -/
def events (p : Program) : List Event := (Walk.stmts [0] p.statements {}).events

/-- Whether a diagnostic is about a local that nothing has bound. -/
def isUndefinedVariable (d : Diagnostic) : Bool :=
  match d.cause with
  | .undefinedVariable _ => true
  | _ => false

/-- The diagnostic for a read that is undefined. -/
def undefinedDiagnostic (n : Name) : Diagnostic := ⟨.undefinedVariable n.text, n.span⟩

/-! ## The reads of a longer list -/

/-- A local that is bound is seen in its scope and in those inside of it. -/
theorem Event.binds_iff {key name : String} {scope outer : List Nat} :
    (Event.bind name outer).binds key scope = true ↔ name.toLower = key ∧ outer <:+ scope := by
  simp [Event.binds]

/-- One more binding counts besides those before it. -/
theorem any_binds_bind {events : List Event} {key name : String} {scope outer : List Nat} :
    (events ++ [Event.bind name outer]).any (Event.binds key scope) = true ↔
      events.any (Event.binds key scope) = true ∨ name.toLower = key ∧ outer <:+ scope := by
  rw [List.any_append, Bool.or_eq_true, List.any_cons, List.any_nil, Bool.or_false,
    Event.binds_iff]

/-- A read binds nothing. -/
theorem any_binds_read {events : List Event} {key : String} {scope outer : List Nat} {n : Name} :
    (events ++ [Event.read n outer]).any (Event.binds key scope) =
      events.any (Event.binds key scope) := by
  simp [Event.binds]

/-- Binding a local at the end leaves no read undefined. -/
theorem undefinedReads_bind (past events : List Event) (name : String) (scope : List Nat) :
    undefinedReads past (events ++ [.bind name scope]) = undefinedReads past events := by
  induction events generalizing past with
  | nil => rfl
  | cons e events ih =>
    cases e with
    | bind name' scope' => exact ih _
    | read n scope' =>
      rw [List.cons_append, undefinedReads, undefinedReads, ih]

/-- A read at the end is undefined if nothing before it binds its name. -/
theorem undefinedReads_read (past events : List Event) (n : Name) (scope : List Nat) :
    undefinedReads past (events ++ [.read n scope]) = undefinedReads past events ++
      if magicVariables.contains n.normalized ||
        (past ++ events).any (Event.binds n.normalized scope) then [] else [n] := by
  -- What comes first is moved into the past, event by event.
  induction events generalizing past with
  | nil =>
    rw [List.append_nil, List.nil_append, undefinedReads, undefinedReads]
    rfl
  | cons e events ih =>
    have happend : past ++ e :: events = past ++ [e] ++ events := by simp
    cases e with
    | bind name' scope' =>
      rw [List.cons_append, undefinedReads, undefinedReads, ih, happend]
    | read n' scope' =>
      rw [List.cons_append, undefinedReads, undefinedReads, ih, happend]
      split
      · rfl
      · rfl

/-- A read is undefined if its name is none of the magic variables, and nothing before it binds
the name in its scope or around it. -/
def UndefinedAt (past events : List Event) (n : Name) : Prop :=
  ∃ before scope after, events = before ++ .read n scope :: after ∧
    magicVariables.contains n.normalized = false ∧
    (past ++ before).any (Event.binds n.normalized scope) = false

/-- The first event is the read in question, or the read is among the others. -/
theorem undefinedAt_cons {past events : List Event} {e : Event} {n : Name} :
    UndefinedAt past (e :: events) n ↔
      (∃ scope, e = .read n scope ∧ magicVariables.contains n.normalized = false ∧
        past.any (Event.binds n.normalized scope) = false) ∨
      UndefinedAt (past ++ [e]) events n := by
  constructor
  · rintro ⟨before, scope, after, hevents, hmagic, hunbound⟩
    -- The read is the first event if nothing stands before it.
    cases before with
    | nil =>
      rcases List.cons.inj hevents with ⟨rfl, rfl⟩
      exact .inl ⟨scope, rfl, hmagic, by rwa [List.append_nil] at hunbound⟩
    | cons e' before =>
      rcases List.cons.inj hevents with ⟨rfl, rfl⟩
      refine .inr ⟨before, scope, after, rfl, hmagic, ?_⟩
      rwa [List.append_assoc, List.singleton_append]
  · rintro (⟨scope, rfl, hmagic, hunbound⟩ | ⟨before, scope, after, rfl, hmagic, hunbound⟩)
    · exact ⟨[], scope, events, rfl, hmagic, by rwa [List.append_nil]⟩
    · refine ⟨e :: before, scope, after, rfl, hmagic, ?_⟩
      rwa [List.append_assoc, List.singleton_append] at hunbound

/-- These are the reads that are undefined. -/
theorem mem_undefinedReads {past events : List Event} {n : Name} :
    n ∈ undefinedReads past events ↔ UndefinedAt past events n := by
  induction events generalizing past with
  | nil =>
    constructor
    · intro h
      cases h
    · rintro ⟨before, scope, after, hevents, _⟩
      cases before <;> cases hevents
  | cons e events ih =>
    rw [undefinedAt_cons, ← ih]
    cases e with
    | bind name scope =>
      rw [undefinedReads]
      constructor
      · exact .inr
      · rintro (⟨_, hread, _⟩ | h)
        · cases hread
        · exact h
    | read n' scope =>
      rw [undefinedReads]
      -- The first read is listed unless it is defined, and then it is none of those in question.
      split
      · next hdefined =>
        constructor
        · exact .inr
        · rintro (⟨scope', hread, hmagic, hunbound⟩ | h)
          · cases hread
            rw [hmagic, hunbound] at hdefined
            cases hdefined
          · exact h
      · next hundefined =>
        rw [Bool.or_eq_true, not_or, Bool.not_eq_true, Bool.not_eq_true] at hundefined
        rw [List.mem_cons]
        constructor
        · rintro (rfl | h)
          · exact .inl ⟨scope, rfl, hundefined⟩
          · exact .inr h
        · rintro (⟨scope', hread, _⟩ | h)
          · cases hread
            exact .inl rfl
          · exact .inr h

end Sqf.Check
