import HostSuite.Suite.Program
import HostSuite.Posix.Launch

/-
  Snapshots of machines, written as lines. `dir PATH`, `link PATH TARGET` and `file MODE PATH`
  describe the tree in order; the lines of a file follow it, each after a bar, the last one after a
  colon where it is not closed. `in PATH` gives the working directory, `set NAME VALUE` a variable
  of the environment, and `time TEXT` the time that reports show. Paths hold no blanks. Nobody is
  watching the streams.
-/

namespace HostSuite.Posix

structure Snapshot where
  entries : List LayoutEntry := []
  workingDir : Path := ⟨"/"⟩
  environment : List (String × String) := []
  timestamp : String := ""
  deriving Repr

namespace Snapshot

/-- The first word of a line and what follows the blank after it. -/
def firstWord (line : String) : String × String :=
  (String.ofList (line.toList.takeWhile (· ≠ ' ')),
    String.ofList (line.toList.dropWhile (· ≠ ' ')).tail)

/-- Adds bytes to the file described last. -/
def extend (bytes : Text.Bytes) (s : Snapshot) : Option Snapshot :=
  match s.entries.getLast? with
  | some (.file p content mode) =>
    some { s with entries := s.entries.dropLast ++ [.file p (content ++ bytes) mode] }
  | _ => none

/-- The snapshot with what one more line says. -/
def addLine (s : Snapshot) (line : String) : Option Snapshot :=
  let add (e : LayoutEntry) : Option Snapshot := some { s with entries := s.entries ++ [e] }
  match line.toList with
  | [] => some s
  | '|' :: cs => s.extend (Text.encode (String.ofList cs ++ "\n"))
  | ':' :: cs => s.extend (Text.encode (String.ofList cs))
  | _ =>
    let (word, rest) := firstWord line
    let (first, second) := firstWord rest
    match word with
    | "dir" => add (.dir ⟨rest⟩)
    | "link" => add (.link ⟨first⟩ second)
    | "file" => add (.file ⟨second⟩ [] (Program.newMode first 0))
    | "in" => some { s with workingDir := ⟨rest⟩ }
    | "set" => some { s with environment := (first, second) :: s.environment }
    | "time" => some { s with timestamp := rest }
    | _ => none

/-- Reads a snapshot, or gives the first line that says nothing. -/
def read (lines : List String) : Except String Snapshot :=
  lines.foldlM (fun s line =>
    match addLine s line with
    | some s => .ok s
    | none => .error line) {}

/-- The tree with the programs of the machine. -/
def tree (s : Snapshot) : Tree := (Tree.putAll Tree.empty [] systemLayout).putAll [] s.entries

/-- The place the working directory names. -/
def place (s : Snapshot) : Place := (s.tree.resolve [] s.workingDir).toOption.getD []

/-- The host that carries commands out on the machine. -/
def host (s : Snapshot) (style : Style) : Host where
  runner := launching s.place s.environment
  style := style
  workingDir := s.place
  searchPath := searchDirs s.environment
  timestamp := s.timestamp
  cleanBuild := (s.environment.lookup "CLEAN_BUILD").map Text.encode

/-- Does on the machine what a command line asks for: what is put on the streams, in order, and
whether it went well. -/
def perform (s : Snapshot) (style : Style) (l : CommandLine) : List (Stream × Text.Bytes) × Bool :=
  let (failure, m) := (Suite.runProgram (s.host style) l).run { tree := s.tree }
  (m.log.filterMap fun e =>
    match e with
    | .printed stream text => some (stream, Text.encode text)
    | .relayed stream bytes => some (stream, bytes)
    | .drawn bytes => some (.err, bytes)
    | _ => none, failure.isNone)

end Snapshot

end HostSuite.Posix
