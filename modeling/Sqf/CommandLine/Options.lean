/-!
# Options of the command line

An invocation names the files to check and may name two more: a file of command
descriptors and a root config. Options stand anywhere before `--`; after it
every argument names a file. An option is known by its full name only, and may
be given once.

Arguments are read from left to right, and reading stops at the first that is
wrong or asks for help.
-/

namespace Sqf.CommandLine

/-- What is wrong with the arguments. -/
inductive UsageError where
  | unknownOption (argument : String)
  /-- The option is given twice. -/
  | repeated (option : String)
  | missingValue (option : String)
  /-- A value is attached to an option that takes none. -/
  | unexpectedValue (option value : String)
  /-- The name of a file is empty. -/
  | emptyName
  | noFiles
deriving DecidableEq, Repr

namespace UsageError

def message : UsageError → String
  | unknownOption argument => "unexpected argument '" ++ argument ++ "' found"
  | repeated option => "the argument '--" ++ option ++ "' cannot be used multiple times"
  | missingValue option => "a value is required for '--" ++ option ++ "' but none was supplied"
  | unexpectedValue option value =>
    "unexpected value '" ++ value ++ "' for '--" ++ option ++ "' found; no more were expected"
  | emptyName => "a value is required for '<FILES>...' but none was supplied"
  | noFiles => "the following required arguments were not provided:\n  <FILES>..."

end UsageError

/-- Why reading the arguments stops. -/
inductive Stop where
  /-- The help is asked for. -/
  | help
  | error (e : UsageError)
deriving DecidableEq, Repr

/-- What an invocation asks for. -/
structure Options where
  /-- The files to check, in the order in which they are named. -/
  files : List String := []
  /-- The file of extra command descriptors. -/
  commands : Option String := none
  /-- The root config that declares functions. -/
  header : Option String := none
  /-- Print diagnostics as JSON. -/
  json : Bool := false
  /-- Report locals that are read before anything binds them. -/
  warnUndefined : Bool := false
deriving DecidableEq, Repr

/-- What an argument is by its spelling. -/
inductive Argument where
  /-- A name, or the value of the option before it. A dash alone is one. -/
  | plain
  /-- From here on every argument names a file. -/
  | endOfOptions
  /-- The option of this name, with the text after `=` if there is one. -/
  | long (name : String) (attached : Option String)
  /-- A dash and letters. -/
  | short (letters : List Char)
deriving DecidableEq, Repr

namespace Argument

def ofText (argument : String) : Argument :=
  match argument.toList with
  | ['-', '-'] => endOfOptions
  | '-' :: '-' :: rest =>
    let attached := match rest.dropWhile (· != '=') with
      | _ :: value => some (String.ofList value)
      | [] => none
    long (String.ofList (rest.takeWhile (· != '='))) attached
  | '-' :: first :: rest => short (first :: rest)
  | _ => plain

end Argument

namespace Options

def addFile (o : Options) (name : String) : Except Stop Options :=
  if name.isEmpty then .error (.error .emptyName)
  else .ok { o with files := o.files ++ [name] }

/-- Sets an option that takes no value. -/
def setFlag (o : Options) (name : String) : Except Stop Options :=
  match name with
  | "json" =>
    if o.json then .error (.error (.repeated name)) else .ok { o with json := true }
  | "warn-undefined" =>
    if o.warnUndefined then .error (.error (.repeated name))
    else .ok { o with warnUndefined := true }
  | "help" => .error .help
  | _ => .error (.error (.unknownOption ("--" ++ name)))

/-- Sets an option that takes a value. -/
def setValue (o : Options) (name value : String) : Except Stop Options :=
  if value.isEmpty then .error (.error (.missingValue name))
  else match name with
    | "commands" =>
      if o.commands.isSome then .error (.error (.repeated name))
      else .ok { o with commands := some value }
    | "header" =>
      if o.header.isSome then .error (.error (.repeated name))
      else .ok { o with header := some value }
    | _ => .error (.error (.unknownOption ("--" ++ name)))

/-- Whether an option of this name takes a value. -/
def takesValue (name : String) : Bool := name == "commands" || name == "header"

/-- Whether an option of this name takes none. -/
def isFlag (name : String) : Bool := name == "json" || name == "warn-undefined" || name == "help"

/-- Reads the arguments that are left. -/
def readFrom (o : Options) : List String → Except Stop Options
  | [] => .ok o
  | argument :: rest =>
    match Argument.ofText argument with
    | .plain => do (← o.addFile argument).readFrom rest
    | .endOfOptions => rest.foldlM addFile o
    | .long name (some value) =>
      if takesValue name then do (← o.setValue name value).readFrom rest
      else if isFlag name then .error (.error (.unexpectedValue name value))
      else .error (.error (.unknownOption argument))
    | .long name none =>
      if takesValue name then
        match rest with
        | value :: rest =>
          if Argument.ofText value = .plain then do (← o.setValue name value).readFrom rest
          else .error (.error (.missingValue name))
        | [] => .error (.error (.missingValue name))
      else do (← o.setFlag name).readFrom rest
    | .short letters =>
      if letters.head? = some 'h' then .error .help
      else .error (.error (.unknownOption argument))

/-- Reads the arguments of an invocation. At least one file has to be named. -/
def read (arguments : List String) : Except Stop Options := do
  let o ← ({} : Options).readFrom arguments
  if o.files.isEmpty then .error (.error .noFiles) else .ok o

/-- The files that an invocation names, in any role. -/
def paths (o : Options) : List String := o.commands.toList ++ o.header.toList ++ o.files

/-- The text that is shown when help is asked for. -/
def help : String := "Syntax and type checker for SQF scripts and config files

Usage: sqf-check [OPTIONS] <FILES>...

Arguments:
  <FILES>...  Files to check; `.hpp`, `.ext` and `.cpp` files are read as config

Options:
      --commands <COMMANDS>  Extra command descriptors (JSON) loaded after the bundled ones
      --json                 Print diagnostics as JSON
      --header <HEADER>      Root config (description.ext or config.cpp) declaring CfgFunctions
      --warn-undefined       Warn when a local variable is read before it is assigned
  -h, --help                 Print help
"

end Options

end Sqf.CommandLine
