import Sqf.Diagnostic
import Sqf.Json

/-!
# Diagnostics as JSON

A report names the file, the kind of problem with what belongs to it, the
message, the severity and the span. Keys are in alphabetical order.
-/

namespace Sqf

namespace Cause

open Json (str nat)

/-- What belongs to the cause, by name. -/
def fields : Cause → List (String × Json)
  | unrecognisedToken token => [("token", str token)]
  | unterminatedString => []
  | unterminatedComment => []
  | unexpectedToken token => [("token", str token)]
  | unexpectedTokenDetailed token message => [("token", str token), ("message", str message)]
  | unexpectedEnd expected => [("expected", str expected)]
  | malformedNumber token => [("token", str token)]
  | missingSeparator token => [("token", str token)]
  | nestingTooDeep limit => [("limit", nat limit)]
  | unknownCommand command => [("command", str command)]
  | unsupportedArity command arity => [("command", str command), ("arity", str arity)]
  | noApplicableOverload command argument expected received =>
    [("command", str command), ("argument", argument.elim .null nat), ("expected", str expected),
      ("received", str received)]
  | typeMismatch expected received => [("expected", str expected), ("received", str received)]
  | missingCondition construct => [("construct", str construct)]
  | missingBody construct => [("construct", str construct)]
  | undefinedVariable name => [("variable", str name)]

/-- The name of the cause and what belongs to it. -/
def toJson (c : Cause) : Json := .sortedObj (("name", str c.name) :: c.fields)

end Cause

namespace Diagnostic

/-- What a diagnostic in a file consists of. -/
def fields (d : Diagnostic) (file : String) : List (String × Json) := [
  ("kind", d.cause.toJson),
  ("severity", .str d.severity.name),
  ("span", .sortedObj [("start", .nat d.span.start), ("end", .nat d.span.stop)]),
  ("file", .str file)]

/-- The report of a diagnostic in a file: what it consists of, and its message. -/
def toJson (d : Diagnostic) (file : String) : Json :=
  .sortedObj (d.fields file ++ [("message", .str d.message)])

end Diagnostic

end Sqf
