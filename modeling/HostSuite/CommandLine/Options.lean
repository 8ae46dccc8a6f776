import HostSuite.CommandLine.Basic
import HostSuite.Number.Numeral

/-
  Options and levels. Options are read on two levels: before the command word and after it. The
  shared options belong to both levels, the others to the commands that use them; every level
  has the two options that only show something.
-/

namespace HostSuite.CommandLine

/-- The command words. -/
inductive Word
  | test
  | coverage
  | run
  deriving DecidableEq, Repr

namespace Word

def all : List Word := [test, coverage, run]

def text : Word → String
  | test => "test"
  | coverage => "coverage"
  | run => "run"

def ofText? (s : String) : Option Word := all.find? (·.text = s)

end Word

/-- The word that asks for help in place of a command. -/
def helpWord : String := "help"

/-- Before the command word, or after it. -/
inductive Level
  | top
  | under (w : Word)
  deriving DecidableEq, Repr

inductive Opt
  | project
  | root
  | clean
  | openPage
  | verbose
  | keepGoing
  | failUnder
  | noColor
  | help
  | version
  deriving DecidableEq, Repr

namespace Opt

def long : Opt → String
  | project => "project"
  | root => "root"
  | clean => "clean"
  | openPage => "open"
  | verbose => "verbose"
  | keepGoing => "keep-going"
  | failUnder => "fail-under"
  | noColor => "no-color"
  | help => "help"
  | version => "version"

def short? : Opt → Option Char
  | project => some 'p'
  | root => some 'r'
  | verbose => some 'v'
  | help => some 'h'
  | version => some 'V'
  | _ => none

/-- What stands for the value of an option that takes one. -/
def valueName? : Opt → Option String
  | project => some "NAME"
  | root => some "DIR"
  | failUnder => some "PERCENT"
  | _ => none

def takesValue (o : Opt) : Bool := o.valueName?.isSome

/-- The option as messages show it. -/
def shown (o : Opt) : String :=
  "--" ++ o.long ++ (o.valueName?.elim "" fun v => " <" ++ v ++ ">")

end Opt

/-- The options of a level in the order in which help lists them. -/
def Level.options : Level → List Opt
  | .top => [.root, .verbose, .noColor, .help, .version]
  | .under .test => [.project, .root, .clean, .verbose, .keepGoing, .noColor, .help, .version]
  | .under .coverage =>
    [.project, .root, .openPage, .verbose, .failUnder, .noColor, .help, .version]
  | .under .run =>
    [.project, .root, .clean, .verbose, .keepGoing, .noColor, .openPage, .failUnder, .help,
      .version]

/-- Why a command line cannot be carried out, or what it asks to be shown instead. -/
inductive Refusal
  | showHelp (l : Level)
  | showHelpOfHelp
  | showVersion (l : Level)
  | nothingAsked
  | unknownArgument (shown : String)
  | unknownCommand (word : String)
  | noCommand
  | valueMissing (o : Opt)
  | badValue (value : String) (o : Opt) (fault : Number.NumeralFault)
  | repeated (o : Opt)
  | valueNotTaken (value : String) (o : Opt)
  deriving DecidableEq, Repr

namespace Refusal

private def quote (s : String) : String := "'" ++ s ++ "'"

/-- The line that tells an error. -/
def message : Refusal → String
  | showHelp _ | showHelpOfHelp | showVersion _ | nothingAsked => ""
  | unknownArgument a => "error: unexpected argument " ++ quote a ++ " found"
  | unknownCommand w => "error: unrecognized subcommand " ++ quote w
  | noCommand => "error: 'hostcov' requires a subcommand but one was not provided"
  | valueMissing o => "error: a value is required for " ++ quote o.shown ++ " but none was supplied"
  | badValue v o f =>
    "error: invalid value " ++ quote v ++ " for " ++ quote o.shown ++ ": " ++ f.message
  | repeated o => "error: the argument " ++ quote o.shown ++ " cannot be used multiple times"
  | valueNotTaken v o =>
    "error: unexpected value " ++ quote v ++ " for " ++ quote o.shown ++
      " found; no more were expected"

/-- Showing what was asked for is a success. -/
def exitCode : Refusal → Nat
  | showHelp _ | showHelpOfHelp | showVersion _ => 0
  | _ => 2

end Refusal

end HostSuite.CommandLine
