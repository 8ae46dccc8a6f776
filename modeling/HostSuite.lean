import HostSuite.Command
import HostSuite.CommandLine.Basic
import HostSuite.CommandLine.Help
import HostSuite.CommandLine.Options
import HostSuite.CommandLine.Parse
import HostSuite.Config.Basic
import HostSuite.Config.Decode
import HostSuite.Coverage.Html
import HostSuite.Coverage.Ignore
import HostSuite.Coverage.Percent
import HostSuite.Coverage.Summary
import HostSuite.Coverage.Tracefile
import HostSuite.Coverage.Unified
import HostSuite.Fault
import HostSuite.Machine
import HostSuite.Main
import HostSuite.Number.Binary64
import HostSuite.Number.Decimal
import HostSuite.Number.Numeral
import HostSuite.Path.Basic
import HostSuite.Posix.Arithmetic
import HostSuite.Posix.Execution
import HostSuite.Posix.Glob
import HostSuite.Posix.Launch
import HostSuite.Posix.Printing
import HostSuite.Posix.Process
import HostSuite.Posix.Programs
import HostSuite.Posix.Script
import HostSuite.Posix.ScriptReader
import HostSuite.Posix.Shell
import HostSuite.Posix.Snapshot
import HostSuite.Posix.Substitution
import HostSuite.Project.Basic
import HostSuite.Project.Counters
import HostSuite.Project.TestBinary
import HostSuite.Project.Tool
import HostSuite.Proofs.CommandLine.Reading
import HostSuite.Proofs.CommandLine.RoundTrip
import HostSuite.Proofs.Config.Accepted
import HostSuite.Proofs.Config.Rules
import HostSuite.Proofs.Config.Settings
import HostSuite.Proofs.Coverage.Conduct
import HostSuite.Proofs.Coverage.Diagnostics
import HostSuite.Proofs.Coverage.Leftovers
import HostSuite.Proofs.Coverage.LinePercent
import HostSuite.Proofs.Coverage.SummaryLines
import HostSuite.Proofs.Coverage.MergeInputs
import HostSuite.Proofs.Coverage.Overlooking
import HostSuite.Proofs.Coverage.Protocol
import HostSuite.Proofs.Coverage.Quiet
import HostSuite.Proofs.Coverage.ReadBack
import HostSuite.Proofs.Coverage.Report
import HostSuite.Proofs.Coverage.SideBySide
import HostSuite.Proofs.Machine.Abreast
import HostSuite.Proofs.Machine.Course
import HostSuite.Proofs.Machine.Deeds
import HostSuite.Proofs.Machine.Echo
import HostSuite.Proofs.Machine.Hushed
import HostSuite.Proofs.Machine.KeepsTo
import HostSuite.Proofs.Machine.Twofold
import HostSuite.Proofs.Path.Lexical
import HostSuite.Proofs.Posix.Launched
import HostSuite.Proofs.Project.Beside
import HostSuite.Proofs.Project.BuildDir
import HostSuite.Proofs.Project.Counters
import HostSuite.Proofs.Project.Launching
import HostSuite.Proofs.Project.Lookup
import HostSuite.Proofs.Project.Started
import HostSuite.Proofs.Project.TestBinary
import HostSuite.Proofs.Project.Version
import HostSuite.Proofs.Suite.CleanBuild
import HostSuite.Proofs.Suite.Confined
import HostSuite.Proofs.Suite.CoverageVerdict
import HostSuite.Proofs.Suite.Discovery
import HostSuite.Proofs.Suite.IgnoredSources
import HostSuite.Proofs.Suite.Independence
import HostSuite.Proofs.Suite.OutputDir
import HostSuite.Proofs.Suite.Phase
import HostSuite.Proofs.Suite.PhaseActions
import HostSuite.Proofs.Suite.ProjectRun
import HostSuite.Proofs.Suite.Refusals
import HostSuite.Proofs.Suite.RunOrder
import HostSuite.Proofs.Suite.Session
import HostSuite.Proofs.Suite.SideBySide
import HostSuite.Proofs.Suite.StageOrder
import HostSuite.Proofs.Suite.Trials
import HostSuite.Proofs.Suite.Verbosity
import HostSuite.Proofs.Text.Blocks
import HostSuite.Proofs.Text.ByteOrder
import HostSuite.Proofs.Text.LineEnds
import HostSuite.Proofs.Text.Streams
import HostSuite.Proofs.Text.Trimmed
import HostSuite.Proofs.Toml.DistinctKeys
import HostSuite.Proofs.Tree.Differs
import HostSuite.Proofs.Tree.Frame
import HostSuite.Proofs.Tree.Layouts
import HostSuite.Proofs.Tree.Listing
import HostSuite.Proofs.Tree.Names
import HostSuite.Proofs.Tree.Removal
import HostSuite.Proofs.Tree.Rooted
import HostSuite.Proofs.Tree.SameSteps
import HostSuite.Proofs.Tree.SelfContained
import HostSuite.Proofs.Tree.Visits
import HostSuite.Proofs.Tree.Walk
import HostSuite.Proofs.Tree.WellNamed
import HostSuite.Rulebook
import HostSuite.Suite.CoveragePhase
import HostSuite.Suite.Program
import HostSuite.Suite.ProjectRun
import HostSuite.Suite.Result
import HostSuite.Suite.Session
import HostSuite.Suite.TestPhase
import HostSuite.Terminal
import HostSuite.Text.Blank
import HostSuite.Text.Lines
import HostSuite.Text.Quoted
import HostSuite.Text.Unquotable
import HostSuite.Text.Utf8
import HostSuite.Toml.Document
import HostSuite.Toml.Scalar
import HostSuite.Toml.Value
import HostSuite.Tree.Basic
import HostSuite.Tree.Edit
import HostSuite.Tree.IoError
import HostSuite.Tree.Layout
import HostSuite.Tree.Lookup
import HostSuite.Tree.Resolve
