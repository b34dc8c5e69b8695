import Mathlib.Data.List.Forall2
import Sqf.Numeral
import Sqf.Precedence
import Sqf.Proofs.Tree.Node
import Sqf.Token.Scan

/-!
# How a tree is written

`Written.program` puts a tree into words. Parentheses stand around every
expression except for the block of a branch, so the tree can be told from the
words without knowing how tightly operators bind. `Node.Writable` says what a
tree must not have to be written like this: placeholders, missing parts, and
commands in a position that they cannot take.
-/

namespace Sqf

/-- A token that is to be written, without its place. -/
inductive Word where
  /-- A keyword or symbol, of which the kind tells all. -/
  | mark (kind : Kind)
  /-- A number, a string, a name or a command. -/
  | text (kind : Kind) (value : String)
  /-- The brace that opens the block with this number. -/
  | opening (id : Nat)

namespace Word

def kind : Word → Kind
  | mark kind => kind
  | text kind _ => kind
  | opening _ => .openCurly

/-- Whether a token stands for a word, wherever it is. -/
def Spells (t : Token) : Word → Prop
  | mark kind => t.kind = kind
  | text kind value => t.kind = kind ∧ t.value = value
  | opening _ => t.kind = .openCurly

end Word

/-- The tokens are words written one after the other. -/
def Spelled (ws : List Word) (ts : List Token) : Prop := List.Forall₂ (fun w t => w.Spells t) ws ts

/-- The symbols that are commands. -/
def commandSymbols : List (String × Kind) := [
  ("==", .equals), ("!=", .notEquals), ("<", .less), ("<=", .lessEquals), (">", .greater),
  (">=", .greaterEquals), (">>", .configPath), ("||", .or), ("&&", .and), ("!", .not),
  ("+", .plus), ("-", .dash), ("*", .star), ("/", .slash), ("%", .percent), ("^", .caret),
  ("#", .hash)]

/-- The kind of a command: that of its symbol, else of its word. -/
def commandKind (command : String) : Kind :=
  (commandSymbols.lookup command).getD (.ofWord command)

/-- The scanner gives each of these symbols its kind. -/
example : ∀ entry ∈ commandSymbols, (scan entry.1).tokens.map Token.kind =
    [entry.2, .endOfInput] := by
  decide +kernel

namespace Written

/-- Words with parentheses around them. -/
def inParens (ws : List Word) : List Word := .mark .openParen :: ws ++ [.mark .closeParen]

/-- The words of an expression where it is a branch: those of a block stand as they are. -/
def asBranch : Expr → List Word → List Word
  | .block _, ws => ws
  | _, ws => inParens ws

/-- A command by its symbol or its word. -/
def command (n : Name) : Word := .text (commandKind n.text) n.text

/-- The keyword in front of the branch of an `if`. -/
def branchWord : IfForm → Kind
  | .thenBranch => .thenWord
  | .exitWith => .exitWithWord

section

-- A number is written with the numeral that this gives for it.
variable (numeral : Double → String)

mutual

def expr : Expr → List Word
  | .number value _ => [.text .number (numeral value)]
  | .string value _ => [.text .string value]
  | .name n => [.text .identifier n.text]
  | .array elements _ => .mark .openBracket :: items elements ++ [.mark .closeBracket]
  | .block b => block b
  | .unary c operand _ => command c :: inParens (expr operand)
  | .binary _ left c right _ => inParens (expr left) ++ command c :: inParens (expr right)
  | .control c => control c
  | .error _ => []

/-- Expressions with commas between them. -/
def items : List Expr → List Word
  | [] => []
  | [e] => inParens (expr e)
  | e :: es => inParens (expr e) ++ .mark .comma :: items es

/-- An expression in parentheses, if it is there. -/
def part : Option Expr → List Word
  | none => []
  | some e => inParens (expr e)

/-- An expression in parentheses behind a keyword or symbol, if it is there. -/
def clause (kind : Kind) : Option Expr → List Word
  | none => []
  | some e => .mark kind :: inParens (expr e)

def elseBranch : Option Expr → List Word
  | none => []
  | some e => .mark .elseWord :: asBranch e (expr e)

def block : Block → List Word
  | ⟨id, statements, _⟩ => .opening id :: stmts statements ++ [.mark .closeCurly]

def block? : Option Block → List Word
  | none => []
  | some b => block b

def stmt : Stmt → List Word
  | .expression e => inParens (expr e)
  | .assignment isPrivate target value _ =>
    (if isPrivate then [.mark .privateWord] else []) ++
      .text .identifier target.text :: .mark .assignment :: inParens (expr value)
  | .control c => control c
  | .error _ => []

/-- Statements with semicolons between them. -/
def stmts : List Stmt → List Word
  | [] => []
  | [s] => stmt s
  | s :: ss => stmt s ++ .mark .semicolon :: stmts ss

def control : Control → List Word
  | .ifThen condition form thenPart otherwise _ =>
    .mark .ifWord :: part condition ++ .mark (branchWord form) ::
      asBranch thenPart (expr thenPart) ++ elseBranch otherwise
  | .whileDo condition body _ =>
    .mark .whileWord :: part condition ++ .mark .doWord :: block? body
  | .forDo header body _ => .mark .forWord :: forHeader header ++ .mark .doWord :: block? body
  | .switchDo subject body _ =>
    .mark .switchWord :: part subject ++ .mark .doWord :: block? body
  | .case true condition b _ => .mark .defaultWord :: part condition ++ block? b
  | .case false condition b _ =>
    .mark .caseWord :: part condition ++ .mark .colon :: block? b

def forHeader : ForHeader → List Word
  | .range loopVariable first last step =>
    .text .string loopVariable.text :: clause .fromWord first ++ clause .toWord last ++
      clause .stepWord step
  | .classic init condition step =>
    .mark .openBracket :: part init ++ clause .comma condition ++ clause .comma step ++
      [.mark .closeBracket]
  | .missing => []

end

/-- A script in words. -/
def program (p : Program) : List Word := stmts numeral p.statements

end

end Written

/-! ## What can be written -/

/-- Whether a command can stand in front of an operand: as a symbol or keyword that takes one,
or as a name that is not one of a local. -/
def isPrefixCommand (command : String) : Bool :=
  match commandKind command with
  | .not | .dash | .plus | .privateWord => true
  | .identifier => !isLocalName command
  | _ => false

/-- What joins two operands with a command of this kind between them. -/
def jointOf : Kind → Joint
  | .and => .and
  | .or => .or
  | _ => .command

/-- Whether a command can stand between two operands. -/
def Table.isInfixCommand (table : Table) (command : String) : Bool :=
  if commandKind command = .identifier then table.has command .binary
  else (Tier.ofKind? (commandKind command)).isSome

namespace Control

/-- Nothing is missing that has to be there, and nothing is there that has no place. -/
def Complete : Control → Prop
  | ifThen condition form _ otherwise _ =>
    condition.isSome ∧ (form = .exitWith → otherwise = none)
  | whileDo condition body _ => condition.isSome ∧ body.isSome
  | forDo (.range _ first last _) body _ => first.isSome ∧ last.isSome ∧ body.isSome
  | forDo (.classic init condition step) body _ =>
    (condition.isSome → init.isSome) ∧ (step.isSome → condition.isSome) ∧ body.isSome
  | forDo .missing _ _ => False
  | switchDo subject body _ => subject.isSome ∧ body.isSome
  | case isDefault condition _ _ => isDefault → condition = none

end Control

/-- What a node must have, apart from its children, to be written: no placeholder, a numeral
that stands for its number, and commands and parts in places that are theirs. -/
def Node.Writable (table : Table) (numeral : Double → String) : Node → Prop
  | stmt (.error _) | expr (.error _) => False
  | stmt (.control c) | expr (.control c) => c.Complete
  | expr (.number value _) => Numeral.read? (numeral value) = some value
  | expr (.unary command _ _) => isPrefixCommand command.text
  | expr (.binary joint _ command _ _) =>
    table.isInfixCommand command.text ∧ joint = jointOf (commandKind command.text)
  | _ => True

/-! ## The end of input is no word -/

/-- None of the words is the end of input. -/
def Inside (ws : List Word) : Prop := ∀ w ∈ ws, w.kind ≠ .endOfInput

/-- A first word adds to words without an end of input if it is none itself. -/
theorem inside_cons {w : Word} {ws : List Word} :
    Inside (w :: ws) ↔ w.kind ≠ .endOfInput ∧ Inside ws :=
  List.forall_mem_cons

/-- Words put one behind the other have no end of input if neither have. -/
theorem inside_append {ws vs : List Word} : Inside (ws ++ vs) ↔ Inside ws ∧ Inside vs :=
  List.forall_mem_append

theorem inside_nil : Inside [] := fun _ h => by cases h

/-- Looking up a kind gives none that neither the list nor the default has. -/
theorem getD_lookup_ne {entries : List (String × Kind)} {k default : Kind}
    (h : ∀ entry ∈ entries, entry.2 ≠ k) (hdefault : default ≠ k) (word : String) :
    (entries.lookup word).getD default ≠ k := by
  induction entries with
  | nil => exact hdefault
  | cons entry entries ih =>
    rcases List.forall_mem_cons.1 h with ⟨hentry, hentries⟩
    rw [List.lookup_cons]
    split
    · exact hentry
    · exact ih hentries

/-- No command is written as the end of input. -/
theorem commandKind_ne (command : String) : commandKind command ≠ .endOfInput :=
  getD_lookup_ne (by decide) (getD_lookup_ne (by decide) (by decide) _) _

namespace Written

/-- Parentheses add no end of input. -/
theorem inside_inParens {ws : List Word} (h : Inside ws) : Inside (inParens ws) := by
  simp [inParens, inside_cons, inside_append, inside_nil, Word.kind, h]

/-- A branch that is written is the words of its expression, perhaps in parentheses. -/
theorem inside_asBranch (e : Expr) {ws : List Word} (h : Inside ws) : Inside (asBranch e ws) := by
  cases e with
  | block b => exact h
  | _ => exact inside_inParens h

theorem inside_command (command : Name) : (Written.command command).kind ≠ .endOfInput :=
  commandKind_ne command.text

variable (numeral : Double → String)

mutual

/-- No expression is written with an end of input. The proof goes down the tree as the writing does,
with one lemma for each of its functions. -/
theorem inside_expr (e : Expr) : Inside (expr numeral e) := by
  cases e with
  | number value span => simp [expr, inside_cons, inside_nil, Word.kind]
  | string value span => simp [expr, inside_cons, inside_nil, Word.kind]
  | name n => simp [expr, inside_cons, inside_nil, Word.kind]
  | array elements span =>
    simp [expr, inside_cons, inside_append, inside_nil, Word.kind, inside_items elements]
  | block b =>
    rw [expr]
    exact inside_block b
  | unary c operand span =>
    rw [expr]
    exact inside_cons.2 ⟨inside_command c, inside_inParens (inside_expr operand)⟩
  | binary joint left c right span =>
    rw [expr]
    exact inside_append.2 ⟨inside_inParens (inside_expr left),
      inside_cons.2 ⟨inside_command c, inside_inParens (inside_expr right)⟩⟩
  | control c =>
    rw [expr]
    exact inside_control c
  | error span => exact inside_nil

theorem inside_items (es : List Expr) : Inside (items numeral es) := by
  match es with
  | [] => exact inside_nil
  | [e] => exact inside_inParens (inside_expr e)
  | e :: e₂ :: es =>
    rw [items]
    · exact inside_append.2 ⟨inside_inParens (inside_expr e),
        inside_cons.2 ⟨(fun h => nomatch h), inside_items (e₂ :: es)⟩⟩
    · exact fun h => nomatch h

/-- A part that may be missing has no words when it is. -/
theorem inside_part (e : Option Expr) : Inside (part numeral e) := by
  cases e with
  | none => exact inside_nil
  | some e => exact inside_inParens (inside_expr e)

/-- A clause is its keyword and its part. -/
theorem inside_clause {kind : Kind} (h : kind ≠ .endOfInput) (e : Option Expr) :
    Inside (clause numeral kind e) := by
  cases e with
  | none => exact inside_nil
  | some e => exact inside_cons.2 ⟨h, inside_inParens (inside_expr e)⟩

theorem inside_elseBranch (e : Option Expr) : Inside (elseBranch numeral e) := by
  cases e with
  | none => exact inside_nil
  | some e => exact inside_cons.2 ⟨(fun h => nomatch h), inside_asBranch e (inside_expr e)⟩

/-- A block is its statements between braces. -/
theorem inside_block (b : Block) : Inside (block numeral b) := by
  cases b with
  | mk id statements span =>
    simp [block, inside_cons, inside_append, inside_nil, Word.kind, inside_stmts statements]

theorem inside_block? (b : Option Block) : Inside (block? numeral b) := by
  cases b with
  | none => exact inside_nil
  | some b => exact inside_block b

theorem inside_stmt (a : Stmt) : Inside (stmt numeral a) := by
  cases a with
  | expression e => exact inside_inParens (inside_expr e)
  | assignment isPrivate target value span =>
    have hvalue := inside_inParens (inside_expr value)
    cases isPrivate with
    | true => simp [stmt, inside_cons, Word.kind, hvalue]
    | false => simp [stmt, inside_cons, Word.kind, hvalue]
  | control c => exact inside_control c
  | error span => exact inside_nil

/-- Statements stand one behind the other with a separator behind each. -/
theorem inside_stmts (ss : List Stmt) : Inside (stmts numeral ss) := by
  match ss with
  | [] => exact inside_nil
  | [a] => exact inside_stmt a
  | a :: b :: ss =>
    rw [stmts]
    · exact inside_append.2 ⟨inside_stmt a,
        inside_cons.2 ⟨(fun h => nomatch h), inside_stmts (b :: ss)⟩⟩
    · exact fun h => nomatch h

/-- The words of a construct are its keywords and the words of its parts. -/
theorem inside_control (c : Control) : Inside (control numeral c) := by
  cases c with
  | ifThen condition form thenPart otherwise span =>
    cases form <;>
      simp [control, inside_cons, inside_append, Word.kind, branchWord, inside_part condition,
        inside_asBranch thenPart (inside_expr thenPart), inside_elseBranch otherwise]
  | whileDo condition body span =>
    simp [control, inside_cons, inside_append, Word.kind, inside_part condition,
      inside_block? body]
  | forDo header body span =>
    simp [control, inside_cons, inside_append, Word.kind, inside_forHeader header,
      inside_block? body]
  | switchDo subject body span =>
    simp [control, inside_cons, inside_append, Word.kind, inside_part subject,
      inside_block? body]
  | case isDefault condition b span =>
    cases isDefault <;>
      simp [control, inside_cons, inside_append, Word.kind, inside_part condition,
        inside_block? b]

theorem inside_forHeader (header : ForHeader) : Inside (forHeader numeral header) := by
  cases header with
  | range loopVariable first last step =>
    simp [forHeader, inside_cons, inside_append, Word.kind, inside_clause, reduceCtorEq]
  | classic init condition step =>
    simp [forHeader, inside_cons, inside_append, inside_nil, Word.kind, inside_part init,
      inside_clause]
  | missing => exact inside_nil

end

end Written

end Sqf
