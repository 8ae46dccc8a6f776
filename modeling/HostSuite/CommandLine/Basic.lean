import HostSuite.Number.Decimal

/-
  What a command line asks for: one of three commands with its options, the projects it is
  restricted to, and the settings that all commands share.
-/

namespace HostSuite

structure TestOptions where
  clean : Bool := false
  keepGoing : Bool := false
  deriving DecidableEq, Repr

structure CoverageOptions where
  openPage : Bool := false
  failUnder : Option Number.Binary64 := none
  deriving DecidableEq, Repr

inductive Request
  | test (options : TestOptions)
  | coverage (options : CoverageOptions)
  | run (test : TestOptions) (coverage : CoverageOptions)
  deriving DecidableEq, Repr

structure CommandLine where
  root : Option String
  verbose : Bool
  noColor : Bool
  projects : List String
  request : Request
  deriving DecidableEq, Repr

end HostSuite
