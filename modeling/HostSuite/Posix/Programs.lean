import HostSuite.Posix.Printing
import HostSuite.Posix.Process
import HostSuite.Posix.Substitution
import HostSuite.Tree.Layout

/-
  The small programs of a machine: those that change the tree go through their arguments one by
  one and complain about what they could not do; the others print.
-/

namespace HostSuite.Posix

/-- A program that needs nothing but its process and the tree. -/
abbrev Program := Process → Tree → Ended

namespace Program

/-- The text of a failure without its number. -/
def plainReason (e : IoError) : String :=
  String.ofList ((Text.splitAt '(' e.message).headD "").toList.dropLast

/-- Flags and other arguments. -/
def parted (args : List String) : List String × List String :=
  args.partition fun a => a.toList.head? = some '-' && a ≠ "-"

/-- Some flag has this letter. -/
def hasFlag (flags : List String) (letter : Char) : Bool := flags.any (·.toList.contains letter)

/-- Does something for each argument and collects the complaints. -/
def forAll (act : Tree → String → Tree × Option String) : List String → Tree → Tree × String
  | [], t => (t, "")
  | a :: rest, t =>
    let (t, complaint) := act t a
    let (t, more) := forAll act rest t
    (t, complaint.getD "" ++ more)

/-- Ends with what was complained about. -/
def closing (r : Tree × String) : Ended :=
  if r.2 = "" then .exiting 0 r.1 else .exiting 1 r.1 [(.err, Text.encode r.2)]

def complaint (program what arg reason : String) : String :=
  program ++ ": " ++ what ++ " '" ++ arg ++ "': " ++ reason ++ "\n"

def mkdir : Program := fun p t =>
  let (flags, dirs) := parted p.args
  closing (forAll (fun t a =>
    if hasFlag flags 'p' then
      match t.makeDirs p.cwd ⟨a⟩ with
      | (t, none) => (t, none)
      | (t, some e) => (t, some (complaint p.name "cannot create directory" a (plainReason e)))
    else
      match t.makeDir p.cwd ⟨a⟩ with
      | .ok t => (t, none)
      | .error e => (t, some (complaint p.name "cannot create directory" a (plainReason e))))
    dirs t)

/-- The mode that a mode argument makes of a mode. -/
def newMode (spec : String) (old : Nat) : Nat :=
  if spec.toList.all isOctal then spec.toList.foldl (fun n c => 8 * n + (c.toNat - '0'.toNat)) 0
  else
    let who := spec.toList.takeWhile fun c => c = 'u' || c = 'g' || c = 'o' || c = 'a'
    let all := who.isEmpty || who.contains 'a'
    let rights := spec.toList.drop (who.length + 1)
    let bits :=
      (if rights.contains 'r' then 4 else 0) + (if rights.contains 'w' then 2 else 0) +
        (if rights.contains 'x' then 1 else 0)
    let mask :=
      (if all || who.contains 'u' then bits * 64 else 0) +
        (if all || who.contains 'g' then bits * 8 else 0) +
        (if all || who.contains 'o' then bits else 0)
    if (spec.toList.drop who.length).head? = some '-' then old - (old &&& mask) else old ||| mask

def chmod : Program := fun p t =>
  match p.args with
  | [] => .exiting 1 t
  | spec :: files =>
    closing (forAll (fun t a =>
      let old :=
        match t.find p.cwd ⟨a⟩ with
        | .ok (_, .file _ mode) => mode
        | .ok (_, .dir mode) => mode
        | _ => 0
      match t.setMode p.cwd ⟨a⟩ (newMode spec old) with
      | .ok t => (t, none)
      | .error e => (t, some (complaint p.name "cannot access" a (plainReason e)))) files t)

def rm : Program := fun p t =>
  let (flags, files) := parted p.args
  let deep := hasFlag flags 'r' || hasFlag flags 'R'
  let quiet := hasFlag flags 'f'
  closing (forAll (fun t a =>
    match t.find p.cwd ⟨a⟩ false with
    | .error .noEntry => (t, if quiet then none else some (refused p a .noEntry))
    | .error e => (t, some (refused p a e))
    | .ok (_, .dir _) =>
      if deep then
        match t.removeDirs p.cwd ⟨a⟩ with
        | (t, none) => (t, none)
        | (t, some e) => (t, some (refused p a e))
      else (t, some (refused p a .isDirectory))
    | .ok _ =>
      match t.removeFile p.cwd ⟨a⟩ with
      | .ok t => (t, none)
      | .error e => (t, some (refused p a e))) files t)
where
  refused (p : Process) (a : String) (e : IoError) : String :=
    complaint p.name "cannot remove" a (plainReason e)

def touch : Program := fun p t =>
  closing (forAll (fun t a =>
    if t.pathExists p.cwd ⟨a⟩ then (t, none)
    else
      match t.write p.cwd ⟨a⟩ [] with
      | .ok t => (t, none)
      | .error e => (t, some (complaint p.name "cannot touch" a (plainReason e)))) p.args t)

/-- The content of the named files in order, or the input; complaints about the others. -/
def gather (p : Process) (t : Tree) (files : List String) :
    Text.Bytes × String :=
  if files.isEmpty then (p.input, "")
  else
    files.foldl (fun (bytes, complaints) a =>
      if a = "-" then (bytes ++ p.input, complaints)
      else
        match t.read p.cwd ⟨a⟩ with
        | .ok content => (bytes ++ content, complaints)
        | .error e =>
          (bytes, complaints ++ p.name ++ ": " ++ a ++ ": " ++ plainReason e ++ "\n"))
      ([], "")

/-- Ends after printing, with what was complained about. -/
def printing (t : Tree) (bytes : Text.Bytes) (complaints : String) : Ended :=
  .exiting (if complaints = "" then 0 else 1) t
    [(.out, bytes), (.err, Text.encode complaints)]

def cat : Program := fun p t =>
  let (bytes, complaints) := gather p t p.args
  printing t bytes complaints

def sed : Program := fun p t =>
  match (parted p.args).2 with
  | [] => .exiting 1 t
  | script :: files =>
    match readSubstitution? script.toList with
    | none => .exiting 1 t [(.err, Text.encode (p.name ++ ": unknown command\n"))]
    | some (r, by', all) =>
      let (bytes, complaints) := gather p t files
      let text := Text.decodeLossy bytes
      let lines := (Text.lines text).map fun l =>
        String.ofList (r.substitute by' all true l.toList)
      let whole := "\n".intercalate lines
      let close := if text.toList.getLast? = some '\n' then "\n" else ""
      printing t (Text.encode (whole ++ close)) complaints

/-- Where a file goes that is copied or moved to a path. -/
def landing (p : Process) (t : Tree) (source target : String) : Path :=
  if t.isDir p.cwd ⟨target⟩ then
    (Path.mk target).join ((Path.mk source).fileName.getD source)
  else ⟨target⟩

def cp : Program := fun p t =>
  match (parted p.args).2 with
  | [source, target] =>
    let goal := landing p t source target
    match t.find p.cwd ⟨source⟩ with
    | .ok (_, .file content mode) =>
      let isNew := !t.pathExists p.cwd goal
      match t.write p.cwd goal content with
      | .ok t => .exiting 0 (if isNew then (t.setMode p.cwd goal mode).toOption.getD t else t)
      | .error e =>
        closing (t, complaint p.name "cannot create regular file" target (plainReason e))
    | .ok _ => closing (t, p.name ++ ": -r not specified; omitting directory '" ++ source ++ "'\n")
    | .error e => closing (t, complaint p.name "cannot stat" source (plainReason e))
  | _ => .exiting 1 t

def mv : Program := fun p t =>
  match (parted p.args).2 with
  | [source, target] =>
    match t.find p.cwd ⟨source⟩ false, t.resolve p.cwd (landing p t source target) false with
    | .ok (place, _), .ok goal =>
      let moved := t.under place
      let bare := moved.foldl (fun t e => t.clear e.1) t
      .exiting 0 (moved.foldl (fun t e => t.set (goal ++ e.1.drop place.length) e.2) bare)
    | .error e, _ => closing (t, complaint p.name "cannot stat" source (plainReason e))
    | _, .error e => closing (t, complaint p.name "cannot move" source (plainReason e))
  | _ => .exiting 1 t

def ln : Program := fun p t =>
  match (parted p.args).2 with
  | [target, name] =>
    let goal := landing p t target name
    if (t.find p.cwd goal false).isOk then
      closing (t, complaint p.name "failed to create symbolic link" name "File exists")
    else .exiting 0 (t.putEntry p.cwd (.link goal target))
  | _ => .exiting 1 t

def basename : Program := fun p t =>
  let name := (Path.mk (p.args.headD "")).segments.getLastD "/"
  printing t (Text.encode (name ++ "\n")) ""

def dirname : Program := fun p t =>
  let path := Path.mk (p.args.headD "")
  let front := "/".intercalate path.segments.dropLast
  let dir := if path.isAbsolute then "/" ++ front else if front = "" then "." else front
  printing t (Text.encode (dir ++ "\n")) ""

/-- Ends at once. -/
def only (code : Nat) : Program := fun _ t => .exiting code t

/-- The programs by name. -/
def table : List (String × Program) :=
  [("mkdir", mkdir), ("chmod", chmod), ("rm", rm), ("touch", touch), ("cat", cat), ("sed", sed),
    ("cp", cp), ("mv", mv), ("ln", ln), ("basename", basename), ("dirname", dirname),
    ("true", only 0), ("false", only 1), ("sleep", only 0),
    ("echo", fun p t => printing t (echoBytes p.args) ""),
    ("printf", fun p t => printing t (printfBytes p.args) ""),
    ("pwd", fun p t => printing t (Text.encode ((Path.ofPlace p.cwd).text ++ "\n")) "")]

end Program

end HostSuite.Posix
