import HostSuite.CommandLine.Help
import HostSuite.Posix.Snapshot

/-
  The command line. The arguments say what to do, and the standard input describes the machine it
  is done on.
-/

namespace HostSuite

/-- The lines of a stream up to its end. -/
partial def readLines (input : IO.FS.Stream) (before : Array String) : IO (List String) := do
  let line ← input.getLine
  if line.isEmpty then return before.toList
  readLines input (before.push (String.ofList (line.toList.filter (· ≠ '\n'))))

/-- Puts bytes on a stream of the terminal. -/
def put (stream : Stream) (bytes : Text.Bytes) : IO Unit := do
  let target ← match stream with
    | .out => IO.getStdout
    | .err => IO.getStderr
  target.write (ByteArray.mk bytes.toArray)
  target.flush

/-- Shows what a command line got instead of being carried out. -/
def refuse (environment : Option String) (r : CommandLine.Refusal) : IO UInt32 := do
  let text := r.display environment
  let closed := if text.toList.getLast? = some '\n' then text else text ++ "\n"
  put (if r.exitCode = 0 then .out else .err) (Text.encode closed)
  return r.exitCode.toUInt32

/-- Carries a command line out on the machine that the standard input describes. -/
def carryOut (l : CommandLine) : IO UInt32 := do
  let lines ← readLines (← IO.getStdin) #[]
  match Posix.Snapshot.read lines with
  | .error line =>
    put .err (Text.encode ("error: no part of a snapshot: " ++ line ++ "\n"))
    return 2
  | .ok snapshot =>
    let (printed, wentWell) := snapshot.perform .plain l
    for (stream, bytes) in printed do
      put stream bytes
    return if wentWell then 0 else 1

end HostSuite

def main (args : List String) : IO UInt32 := do
  let environment ← IO.getEnv "HOSTCOV_ROOT"
  match HostSuite.CommandLine.parse args environment with
  | .error r => HostSuite.refuse environment r
  | .ok l => HostSuite.carryOut l
