import Sqf.Check
import Sqf.Command.Bundled
import Sqf.Command.DescriptorReader
import Sqf.CommandLine.Options
import Sqf.Config.Parse
import Sqf.Diagnostic.Render
import Sqf.Diagnostic.Report
import Sqf.Json.Printer
import Sqf.ModuleCache

/-!
# What an invocation prints

The files of an invocation are checked in order, config files as configs and
all others as scripts. Diagnostics are printed as they are found, or at the end
as one JSON array. A file that cannot be read ends the run; then no array is
printed, but what was found before it has been shown.
-/

namespace Sqf.CommandLine

/-- The text of the file at a path, if it can be read. -/
abbrev FileReader := String → Option String

/-- What ends a run early. -/
inductive Failure where
  | unreadable (path : String)
  | descriptors (path : String) (e : DescriptorError)
  /-- The root config cannot be had. -/
  | header (path : String)
deriving Repr

namespace Failure

def message : Failure → String
  | unreadable path => "failed to read " ++ path
  | descriptors path _ => "invalid command descriptors in " ++ path
  | header path => "failed to read functions from " ++ path

end Failure

/-- What a run leaves behind. -/
structure Outcome where
  exitCode : Nat
  /-- What has been printed. -/
  printed : String := ""
  /-- What there is to say beside it. -/
  complaint : Option String := none
deriving DecidableEq, Repr

/-- The part of a file's name after its last dot, unless the name starts with that dot. -/
def extension? (path : String) : Option String :=
  let name := ((path.toList.splitOn '/').filter fun n => n != [] && n != ['.']).getLast?.getD []
  let (after, before) := name.reverse.span (· != '.')
  match before with
  | '.' :: _ :: _ => if name = ['.', '.'] then none else some (String.ofList after.reverse)
  | _ => none

/-- Whether the file at a path is read as a config. -/
def isConfig (path : String) : Bool :=
  match extension? path with
  | some extension => ["hpp", "ext", "cpp", "h"].contains extension
  | none => false

/-- What is wrong with a file. What is wrong with the form of a script comes first, in the order of
the places. -/
def checkFile (table : Table) (settings : Settings) (path source : String) : List Diagnostic :=
  if isConfig path then (Config.parse source).diagnostics
  else
    let scanned := scan source
    let parsed := parse table scanned.tokens
    Diagnostic.sortByStart (scanned.diagnostics ++ parsed.diagnostics) ++
      (check table settings parsed.program).diagnostics

/-- What a run has found and printed so far. -/
structure Progress where
  hasErrors : Bool := false
  printed : String := ""
  /-- What is to be printed as JSON at the end. -/
  reports : List Json := []

namespace Progress

/-- Prints the diagnostics of a file, each with a line feed behind it. -/
def print (s : Progress) (path source : String) : List Diagnostic → Progress
  | [] => s
  | d :: ds => print { s with printed := s.printed ++ d.render path source ++ "\n" } path source ds

/-- Keeps the diagnostics of a file as JSON. -/
def keep (s : Progress) (path : String) (found : List Diagnostic) : Progress :=
  { s with reports := s.reports ++ found.map (·.toJson path) }

/-- Notes what has been found in a file: it is kept if JSON is asked for, else printed. -/
def add (s : Progress) (json : Bool) (path source : String) (found : List Diagnostic) : Progress :=
  let s : Progress := { s with hasErrors := s.hasErrors || found.any (·.severity == .error) }
  if json then s.keep path found else s.print path source found

end Progress

/-- Checks one file after the other, up to the first that cannot be read. -/
def checkFiles (json : Bool) (table : Table) (settings : Settings) (read? : FileReader)
    (s : Progress) : List String → Progress × Option Failure
  | [] => (s, none)
  | path :: paths =>
    match read? path with
    | some source =>
      let found := checkFile table settings path source
      checkFiles json table settings read? (s.add json path source found) paths
    | none => (s, some (.unreadable path))

namespace Options

/-- The bundled commands and those of the descriptors that are named. -/
def table (o : Options) (read? : FileReader) : Except Failure Table :=
  match o.commands with
  | none => .ok .bundled
  | some path =>
    match read? path with
    | none => .error (.unreadable path)
    | some json =>
      match Table.ofJson json with
      | .ok extra => .ok (.bundled ++ extra)
      | .error e => .error (.descriptors path e)

/-- The settings, with the functions of the root config that is named. -/
def settings (o : Options) (read? : FileReader) : Except Failure Settings :=
  let settings : Settings := { warnUndefinedLocals := o.warnUndefined }
  match o.header with
  | none => .ok settings
  | some path =>
    let provider : Provider := fun path _ => (read? path).elim .missing fun s => .config ⟨path, s⟩
    match (({} : ModuleCache).functions provider path).1 with
    | .value functions =>
      .ok ((functions.map Config.Function.fullName).foldl Settings.addFunction settings)
    | _ => .error (.header path)

/-- Runs the checks that the options ask for. The exit code is 0 if every file could be
checked and has no error, and 1 otherwise. -/
def run (o : Options) (read? : FileReader) : Outcome :=
  match o.table read?, o.settings read? with
  | .error f, _ | .ok _, .error f => { exitCode := 1, complaint := some f.message }
  | .ok table, .ok settings =>
    match checkFiles o.json table settings read? {} o.files with
    | (s, some f) => { exitCode := 1, printed := s.printed, complaint := some f.message }
    | (s, none) =>
      { exitCode := if s.hasErrors then 1 else 0
        printed := if o.json then s.printed ++ (Json.array s.reports).pretty ++ "\n"
          else s.printed }

end Options

/-- The outcome of an invocation. Arguments that cannot be read give exit code 2. -/
def outcome (arguments : List String) (read? : FileReader) : Outcome :=
  match Options.read arguments with
  | .ok options => options.run read?
  | .error .help => { exitCode := 0, printed := Options.help }
  | .error (.error e) => { exitCode := 2, complaint := some e.message }

end Sqf.CommandLine
