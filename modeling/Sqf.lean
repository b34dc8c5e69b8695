import Sqf.Check
import Sqf.Command.Bundled
import Sqf.Command.DescriptorReader
import Sqf.CommandLine.Folder
import Sqf.Config.Functions
import Sqf.Config.Parse
import Sqf.Diagnostic.Render
import Sqf.Diagnostic.Report
import Sqf.Json.Printer
import Sqf.Json.Reader
import Sqf.Main
import Sqf.ModuleCache
import Sqf.Numeral
import Sqf.Parse.Program
import Sqf.Text.Duration
import Sqf.Token.Scan
import Sqf.Tree.Node
import Sqf.Proofs.Parse.Containment
import Sqf.Proofs.Check.Visibility
import Sqf.Proofs.Parse.RoundTrip
import Sqf.Proofs.Token.Tiling
import Sqf.Proofs.Check.ScopeTree
import Sqf.Proofs.Check.LetterCase
import Sqf.Proofs.Parse.CleanScript
import Sqf.Proofs.ModuleCache
import Sqf.Proofs.Check.ScopeById
import Sqf.Proofs.Config.RoundTrip
import Sqf.Proofs.Config.Enclosed
import Sqf.Proofs.Config.SpanNesting
import Sqf.Proofs.Parse.NestingLimit
import Sqf.Proofs.Check.Places
import Sqf.Proofs.ModuleCache.Independence
import Sqf.Proofs.Check.OtherCommands
import Sqf.Proofs.Check.SourceOrder
import Sqf.Proofs.CommandLine
import Sqf.Proofs.Token.Rescan
import Sqf.Proofs.Token.Lines
import Sqf.Proofs.Parse.SpanNesting
import Sqf.Proofs.Parse.Placeholders
import Sqf.Proofs.Parse.Grouping
import Sqf.Proofs.Parse.StatementBoundary
import Sqf.Proofs.ValueType.Slots
import Sqf.Proofs.ValueType.Gradual
import Sqf.Proofs.ValueType.ShortLiterals
import Sqf.Proofs.Command.Validation
import Sqf.Proofs.Command.Extension
import Sqf.Proofs.Command.Markers
import Sqf.Proofs.Check.Encapsulation
import Sqf.Proofs.Check.Refusals
import Sqf.Proofs.Check.Warnings
import Sqf.Proofs.Check.KnownFunctions
import Sqf.Proofs.Config.Functions
import Sqf.Proofs.Config.MacroWords
import Sqf.Proofs.Config.TooDeep
import Sqf.Proofs.Diagnostic.Carets
import Sqf.Proofs.Text.Lookup
import Sqf.Proofs.ValueType.OptionalCounts
import Sqf.Proofs.Diagnostic.Numbers
