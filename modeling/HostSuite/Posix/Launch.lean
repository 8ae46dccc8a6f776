import HostSuite.Machine
import HostSuite.Posix.Execution
import HostSuite.Posix.Programs

/-
  Launching. A name with a slash is a path from the working directory of the new process; another
  name is looked for along the search path, where a file that may not be executed is passed over
  but remembered. A file that begins with `#!` is handed to the program named there, with its own
  path as an argument. A host launches its commands this way; what they print is let through to the
  terminal or captured.
-/

namespace HostSuite.Posix

/-- The directories with the programs of the machine. -/
def systemDirs : List Place := [["bin"], ["usr", "bin"]]

/-- The programs that start others. -/
def starterNames : List String := ["sh", "env"]

/-- The layout of a machine with its programs. -/
def systemLayout : List LayoutEntry :=
  (systemDirs.flatMap fun dir =>
    ((Program.table.map Prod.fst) ++ starterNames).map fun name =>
      LayoutEntry.file (Path.ofPlace (dir ++ [name])) [] 0o755) ++
    [.file (Path.ofPlace Shell.nullDevice) [] 0o666, .dir ⟨"/tmp"⟩]

/-- The name of the machine's own program at a place. -/
def systemName? (place : Place) : Option String :=
  if systemDirs.contains place.dropLast then place.getLast? else none

/-- The program and the argument that the first line of a file names. -/
def interpreter? (content : Text.Bytes) : Option (String × Option String) :=
  match content with
  | 0x23 :: 0x21 :: rest =>
    let line := (Text.decodeLossy (rest.takeWhile (· ≠ 10))).toList
    let blank (c : Char) : Bool := c = ' ' || c = '\t'
    let trimmed := ((line.dropWhile blank).reverse.dropWhile blank).reverse
    let name := trimmed.takeWhile (!blank ·)
    let arg := (trimmed.dropWhile (!blank ·)).dropWhile blank
    if name.isEmpty then none
    else some (String.ofList name, if arg.isEmpty then none else some (String.ofList arg))
  | _ => none

/-- A name as a path, so that it is not looked for along the search path. -/
def asPath (name : String) : String := if name.toList.contains '/' then name else "./" ++ name

/-- A shell for a process. -/
def shellOf (p : Process) (t : Tree) (zero : String) (args : List String) : Shell where
  tree := t
  cwd := p.cwd
  params := p.environment
  exported := p.environment.map Prod.fst
  zero := zero
  args := args
  input := p.input

/-- Runs a script from a file. -/
def runFile (launch : Launcher) (p : Process) (t : Tree) (strict : Bool) (file : String)
    (args : List String) : Ended :=
  match t.read p.cwd ⟨file⟩ with
  | .ok content =>
    Shell.runText launch (Text.decodeLossy content)
      { shellOf p t file args with strict := strict }
  | .error _ =>
    .exiting 2 t [(.err, Text.encode ("sh: 0: cannot open " ++ file ++ ": No such file\n"))]

/-- The shell as a program: it runs a given text, a file, or its input. -/
def sh (launch : Launcher) (p : Process) (t : Tree) (strict : Bool) : List String → Ended
  | "-c" :: text :: rest =>
    Shell.runText launch text
      { shellOf p t (rest.headD "sh") rest.tail with strict := strict }
  | "-e" :: rest => sh launch p t true rest
  | file :: args =>
    if file.toList.head? = some '-' then sh launch p t strict args
    else runFile launch p t strict file args
  | [] => Shell.runText launch (Text.decodeLossy p.input) { shellOf p t "sh" [] with input := [] }

/-- Starts the program that the arguments name. -/
def env (launch : Launcher) (p : Process) (t : Tree) : Ended :=
  match p.args with
  | [] => .exiting 0 t
  | name :: args =>
    match launch { p with name := name, args := args } t with
    | .ok e => e
    | .error e =>
      .exiting 127 t
        [(.err, Text.encode (p.name ++ ": '" ++ name ++ "': " ++ Program.plainReason e ++ "\n"))]

/-- Runs the machine's own program of a name. -/
def runSystem (launch : Launcher) (p : Process) (t : Tree) (name : String) :
    Except IoError Ended :=
  if name = "sh" then .ok (sh launch p t false p.args)
  else if name = "env" then .ok (env launch p t)
  else
    match Program.table.lookup name with
    | some program => .ok (program p t)
    | none => .error .execFormat

/-- Starts the file at a path. -/
def startFile (launch : Launcher) (p : Process) (t : Tree) (path : Path) : Except IoError Ended :=
  match t.find p.cwd path with
  | .error e => .error e
  | .ok (place, .file content mode) =>
    if !Tree.mayExecute mode then .error .permissionDenied
    else
      match systemName? place with
      | some name => runSystem launch p t name
      | none =>
        match interpreter? content with
        | some (name, arg) =>
          launch { p with name := asPath name, args := arg.toList ++ path.text :: p.args } t
        | none => .error .execFormat
  | .ok _ => .error .permissionDenied

/-- Starts the first file of a name along some directories. `denied` says that one was passed over
that may not be executed. -/
def startAlong (start : Path → Except IoError Ended) (name : String) (denied : Bool) :
    List Path → Except IoError Ended
  | [] => .error (if denied then .permissionDenied else .noEntry)
  | dir :: dirs =>
    match start (dir.join name) with
    | .error .permissionDenied => startAlong start name true dirs
    | .error .noEntry => startAlong start name denied dirs
    | .error .notDirectory => startAlong start name denied dirs
    | other => other

/-- The directories of the search path of an environment. -/
def searchDirs (environment : List (String × String)) : List Path :=
  match environment.lookup "PATH" with
  | some dirs => (Text.splitAt ':' dirs).map Path.mk
  | none => [⟨"/bin"⟩, ⟨"/usr/bin"⟩]

/-- Starts a process; processes start others to a depth. -/
def launch : Nat → Launcher
  | 0 => fun _ _ => .error .tooManyLinks
  | depth + 1 => fun p t =>
    let start := startFile (launch depth) p t
    if p.name = "" then .error .noEntry
    else if p.name.toList.contains '/' then start ⟨p.name⟩
    else startAlong start p.name false (searchDirs p.environment)

/-- How deep processes may start others. -/
def maxProcesses : Nat := 64

/-- The result of a command whose process has ended. -/
def resultOf (c : Command) (e : Ended) : CommandResult :=
  let captured (s : Stream) : String :=
    if c.inheritsOutput then "" else Text.decodeLossy (e.bytesOn s)
  .ofStatus e.status (captured .out) (captured .err) 0

/-- The process of a command in its working directory. -/
def startCommand (base : Place) (environment : List (String × String)) (c : Command) (t : Tree) :
    Except IoError Ended :=
  match t.find base c.cwd with
  | .ok (place, .dir _) => launch maxProcesses ⟨c.program, c.args, place, environment, []⟩ t
  | .ok _ => .error .notDirectory
  | .error e => .error e

/-- The host that launches its commands. -/
def launching (base : Place) (environment : List (String × String)) : Runner := fun _ c t =>
  match startCommand base environment c t with
  | .ok e => ⟨.ok (resultOf c e), e.tree, if c.inheritsOutput then e.printed else []⟩
  | .error e => ⟨.error ⟨"Failed to execute " ++ c.program, [e.message]⟩, t, []⟩

end HostSuite.Posix
