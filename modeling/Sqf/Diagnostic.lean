import Sqf.Span
import Sqf.Text.Quoted

/-!
# Diagnostics

A diagnostic is a cause and the span it concerns. Everything a reader is told
follows from the cause: its name, its message, how severe it is and the tip
that goes with it. The name of the file is no part of a diagnostic; whoever
shows one knows which file it belongs to.
-/

namespace Sqf

/-- How much a diagnostic matters: errors make a check fail, warnings do not. -/
inductive Severity where
  | error
  | warning
deriving DecidableEq, Inhabited, Repr

namespace Severity

def name : Severity → String
  | error => "error"
  | warning => "warning"

end Severity

/-- What is wrong with a source text. -/
inductive Cause where
  /-- A character that starts no token. -/
  | unrecognisedToken (token : String)
  | unterminatedString
  | unterminatedComment
  /-- A token that cannot stand here. -/
  | unexpectedToken (token : String)
  /-- A token that cannot stand here, and what was expected of it. -/
  | unexpectedTokenDetailed (token message : String)
  | unexpectedEnd (expected : String)
  | malformedNumber (token : String)
  | missingSeparator (token : String)
  | nestingTooDeep (limit : Nat)
  | unknownCommand (command : String)
  /-- The command exists, but not with this number of operands. -/
  | unsupportedArity (command arity : String)
  /-- No overload takes these operands; `argument` is the first one that the closest
  overload refuses. -/
  | noApplicableOverload (command : String) (argument : Option Nat) (expected received : String)
  | typeMismatch (expected received : String)
  | missingCondition (construct : String)
  | missingBody (construct : String)
  | undefinedVariable (name : String)
deriving DecidableEq, Inhabited, Repr

namespace Cause

def name : Cause → String
  | unrecognisedToken .. => "UnrecognisedToken"
  | unterminatedString => "UnterminatedString"
  | unterminatedComment => "UnterminatedComment"
  | unexpectedToken .. => "UnexpectedToken"
  | unexpectedTokenDetailed .. => "UnexpectedTokenDetailed"
  | unexpectedEnd .. => "UnexpectedEof"
  | malformedNumber .. => "NumberParseError"
  | missingSeparator .. => "MissingSeparator"
  | nestingTooDeep .. => "NestingTooDeep"
  | unknownCommand .. => "UnknownCommand"
  | unsupportedArity .. => "UnsupportedArity"
  | noApplicableOverload .. => "NoApplicableOverload"
  | typeMismatch .. => "TypeMatchError"
  | missingCondition .. => "MissingCondition"
  | missingBody .. => "MissingBody"
  | undefinedVariable .. => "UndefinedVariable"

/-- Only the read of a local that nothing has bound is a mere warning. -/
def severity : Cause → Severity
  | undefinedVariable .. => .warning
  | _ => .error

/-- Whether the text itself is malformed, as opposed to what it says. -/
def isSyntax : Cause → Bool
  | unrecognisedToken .. | unterminatedString | unterminatedComment | unexpectedToken ..
  | unexpectedTokenDetailed .. | unexpectedEnd .. | malformedNumber .. | missingSeparator ..
  | nestingTooDeep .. => true
  | _ => false

open Text (quoted)

/-- The message. Pieces of the source are quoted. -/
def message : Cause → String
  | unrecognisedToken token => "unrecognised token: " ++ quoted token
  | unterminatedString => "unterminated string literal"
  | unterminatedComment => "unterminated block comment"
  | unexpectedToken token => "unexpected token: " ++ quoted token
  | unexpectedTokenDetailed token message =>
    "unexpected token (" ++ message ++ "): " ++ quoted token
  | unexpectedEnd expected => "unexpected end of input, expected " ++ expected
  | malformedNumber token => "error parsing number: " ++ quoted token
  | missingSeparator token => "missing statement separator before " ++ quoted token
  | nestingTooDeep limit => "nesting deeper than " ++ toString limit ++ " levels"
  | unknownCommand command => "unknown command " ++ quoted command
  | unsupportedArity command arity => "command " ++ quoted command ++ " has no " ++ arity ++ " form"
  | noApplicableOverload command (some argument) expected received =>
    "no applicable overload for " ++ quoted command ++ ": argument " ++ toString argument ++
      " expected " ++ expected ++ ", received " ++ received
  | noApplicableOverload command none _ _ => "no applicable overload for " ++ quoted command
  | typeMismatch expected received =>
    "types do not match: expected " ++ expected ++ ", received " ++ received
  | missingCondition construct => "malformed " ++ construct ++ ": missing condition"
  | missingBody construct => "malformed " ++ construct ++ ": missing body"
  | undefinedVariable name => "local variable " ++ quoted name ++ " is not defined"

/-- The advice that goes with the message, if there is any. -/
def tip? : Cause → Option String
  | unrecognisedToken .. => none
  | unterminatedString => some "Close the string with a matching quote"
  | unterminatedComment => some "Close the comment with `*/`"
  | unexpectedToken token =>
    some ("Unexpected token: `" ++ token ++ "`, did you miss a semicolon?")
  | unexpectedTokenDetailed token message =>
    some ("Unexpected token: `" ++ token ++ "`, " ++ message)
  | unexpectedEnd expected => some ("Input ended while expecting " ++ expected)
  | malformedNumber token =>
    some ("Invalid number: `" ++ token ++ "`, is it a malformed hex literal?")
  | missingSeparator .. => some "Statements must be separated by `;` or `,`"
  | nestingTooDeep .. => some "Move inner parts into variables to flatten the nesting"
  | unknownCommand command =>
    some ("`" ++ command ++ "` is not a known command; globals cannot take operands")
  | unsupportedArity command arity =>
    some ("`" ++ command ++ "` exists but cannot be used as a " ++ arity ++ " command")
  | noApplicableOverload _ (some argument) expected received =>
    some ("Argument " ++ toString argument ++ " should be `" ++ expected ++ "`, received `" ++
      received ++ "`")
  | noApplicableOverload _ none _ _ => none
  | typeMismatch expected received =>
    some ("Expected type `" ++ expected ++ "`, received `" ++ received ++ "`")
  | missingCondition construct => some ("Add a condition to the `" ++ construct ++ "`")
  | missingBody construct => some ("Add a `\x7b \x7d` body to the `" ++ construct ++ "`")
  | undefinedVariable name =>
    some ("Declare `" ++ name ++ "` with `private` before reading it")

end Cause

/-- A cause and where it shows. -/
structure Diagnostic where
  cause : Cause
  span : Span
deriving DecidableEq, Inhabited, Repr

namespace Diagnostic

def message (d : Diagnostic) : String := d.cause.message

def severity (d : Diagnostic) : Severity := d.cause.severity

/-- The diagnostic moved `n` bytes to the right. -/
def shift (n : Nat) (d : Diagnostic) : Diagnostic := { d with span := d.span.shift n }

/-- Diagnostics in the order of their starts; those that start together keep their order. -/
def sortByStart (ds : List Diagnostic) : List Diagnostic :=
  ds.mergeSort fun a b => a.span.start ≤ b.span.start

theorem sortByStart_perm (ds : List Diagnostic) : (sortByStart ds).Perm ds :=
  List.mergeSort_perm ..

end Diagnostic

end Sqf
