import HostSuite.Fault
import HostSuite.Text.Blank

/-
  The configuration of a suite. Every setting has a default. The rules: names that are compared
  with the entries of one directory are not blank and hold no separator, the other texts are not
  blank, and a threshold is a percentage. The first broken rule is the one that is reported.
-/

namespace HostSuite

/-- What makes a directory a project. -/
structure DiscoverySettings where
  descriptor : String := "CMakeLists.txt"
  buildDir : String := "build"
  exclude : List String := []
  deriving DecidableEq, Repr

/-- The programs that are driven, and the target they build for. -/
structure ToolSettings where
  idf : String := "idf.py"
  target : String := "linux"
  lcov : String := "lcov"
  genhtml : String := "genhtml"
  deriving DecidableEq, Repr

structure CoverageSettings where
  outputDir : String := "coverage"
  ignoreFile : String := "coverage_ignore.txt"
  title : String := "Host Test Coverage"
  failUnder : Option Number.Binary64 := none
  deriving DecidableEq, Repr

structure Config where
  discovery : DiscoverySettings := {}
  tools : ToolSettings := {}
  coverage : CoverageSettings := {}
  deriving DecidableEq, Repr

/-- A broken rule. -/
inductive RuleFault
  | emptyValue (key : String)
  | notPlainName (key value : String)
  | notPercentage (value : Number.Binary64)
  deriving DecidableEq, Repr

namespace RuleFault

def toFault : RuleFault → Fault
  | emptyValue key => .config (key ++ " must not be empty") none
  | notPlainName key value =>
    .config (key ++ " must be a plain file name, got '" ++ value ++ "'")
      (some "Discovery only looks at immediate children of each directory")
  | notPercentage value =>
    .config ("fail_under must be between 0 and 100, got " ++ value.text)
      (some "Use a percentage such as fail_under = 80.0")

end RuleFault

namespace Config

def fileName : String := "hostcov.toml"

/-- Directory names that never make a project. -/
def builtinExcludes : List String := ["build", "__pycache__", ".pytest_cache"]

/-- Adds a name unless it is there. -/
def addName (names : List String) (name : String) : List String :=
  if names.contains name then names else names ++ [name]

/-- Directory names that make no project: the built-in ones, the output directory, the excluded
ones. -/
def denylist (c : Config) : List String :=
  c.discovery.exclude.foldl addName (builtinExcludes ++ [c.coverage.outputDir])

def outputDir (c : Config) (root : Path) : Path := root.join c.coverage.outputDir

def ignoreFile (c : Config) (root : Path) : Path := root.join c.coverage.ignoreFile

/-- A number from 0 to 100. -/
def isPercentage (x : Number.Binary64) : Bool :=
  (Number.Binary64.ofNat 0).le x && x.le (Number.Binary64.ofNat 100)

def checkThreshold (x : Number.Binary64) : Except RuleFault Unit :=
  if isPercentage x then .ok () else .error (.notPercentage x)

def checkFilled (key value : String) : Except RuleFault Unit :=
  if Text.isBlankText value then .error (.emptyValue key) else .ok ()

/-- Neither kind of slash occurs. -/
def hasNoSeparator (value : String) : Bool :=
  !value.toList.contains '/' && !value.toList.contains '\\'

def checkPlainName (key value : String) : Except RuleFault Unit := do
  checkFilled key value
  if hasNoSeparator value then .ok () else .error (.notPlainName key value)

/-- The texts that only have to be there, with the keys they are reported under. -/
def filledTexts (c : Config) : List (String × String) :=
  [("tools.idf", c.tools.idf), ("tools.target", c.tools.target), ("tools.lcov", c.tools.lcov),
    ("tools.genhtml", c.tools.genhtml), ("coverage.output_dir", c.coverage.outputDir),
    ("coverage.ignore_file", c.coverage.ignoreFile)]

/-- Checks all rules. -/
def check (c : Config) : Except RuleFault Unit := do
  checkPlainName "discovery.descriptor" c.discovery.descriptor
  checkPlainName "discovery.build_dir" c.discovery.buildDir
  c.discovery.exclude.forM (checkPlainName "discovery.exclude")
  c.filledTexts.forM fun (key, value) => checkFilled key value
  match c.coverage.failUnder with
  | some threshold => checkThreshold threshold
  | none => .ok ()

end Config

end HostSuite
