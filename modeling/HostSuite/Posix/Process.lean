import HostSuite.Terminal
import HostSuite.Tree.Edit

/-
  Processes. A process is a named program with its arguments, working directory, environment and
  input. When it has ended there is its wait status, the tree it leaves, and what it printed, in
  order. A launcher may refuse to start a process.
-/

namespace HostSuite.Posix

structure Process where
  name : String
  args : List String
  cwd : Place
  environment : List (String × String)
  input : Text.Bytes := []
  deriving DecidableEq, Repr

/-- A process that has ended. The status is the raw one: a signal, or 256 times the exit code. -/
structure Ended where
  status : Nat
  tree : Tree
  printed : List (Stream × Text.Bytes) := []

namespace Ended

/-- An end with an exit code. -/
def exiting (code : Nat) (t : Tree) (printed : List (Stream × Text.Bytes) := []) : Ended :=
  ⟨code % 256 * 256, t, printed⟩

/-- What was printed on a stream. -/
def bytesOn (e : Ended) (s : Stream) : Text.Bytes :=
  (e.printed.filter (·.1 = s)).flatMap Prod.snd

end Ended

/-- Starts processes. -/
abbrev Launcher := Process → Tree → Except IoError Ended

end HostSuite.Posix
