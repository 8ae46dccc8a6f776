import HostSuite.Posix.Printing
import HostSuite.Posix.ScriptReader
import HostSuite.Posix.Shell

/-
  Running scripts. A simple command is one of the commands that the shell carries out itself or a
  process of its own. The flow says whether the script goes on after it, leaves, or is killed.
  Every step takes fuel, so that a script that would run forever ends; whoever runs out of it
  leaves with an error.
-/

namespace HostSuite.Posix

namespace Shell

/-! Conditions -/

/-- A file that has this property. -/
def fileTest (s : Shell) (op path : String) : Bool :=
  match op with
  | "-e" => s.tree.pathExists s.cwd ⟨path⟩
  | "-f" => s.tree.isFile s.cwd ⟨path⟩
  | "-d" => s.tree.isDir s.cwd ⟨path⟩
  | "-r" => s.tree.pathExists s.cwd ⟨path⟩
  | "-w" => s.tree.pathExists s.cwd ⟨path⟩
  | "-x" => s.tree.isDir s.cwd ⟨path⟩ || s.tree.isProgram s.cwd ⟨path⟩
  | "-s" =>
    match s.tree.find s.cwd ⟨path⟩ with
    | .ok (_, .file content _) => !content.isEmpty
    | .ok _ => true
    | .error _ => false
  | "-L" => isLink path
  | "-h" => isLink path
  | _ => false
where
  isLink (path : String) : Bool :=
    match s.tree.find s.cwd ⟨path⟩ false with
    | .ok (_, .link _) => true
    | _ => false

/-- A comparison of two texts or integers. -/
def compareTest (a op b : String) : Bool :=
  match op with
  | "=" => a = b
  | "==" => a = b
  | "!=" => a ≠ b
  | "-eq" => integerOf a = integerOf b
  | "-ne" => integerOf a ≠ integerOf b
  | "-lt" => integerOf a < integerOf b
  | "-le" => integerOf a ≤ integerOf b
  | "-gt" => integerOf b < integerOf a
  | "-ge" => integerOf b ≤ integerOf a
  | _ => false

/-- Whether a condition holds. -/
def condition (s : Shell) : List String → Bool
  | [] => false
  | [a] => a ≠ ""
  | ["!", a] => a = ""
  | ["-n", a] => a ≠ ""
  | ["-z", a] => a = ""
  | [op, a] => s.fileTest op a
  | "!" :: rest => !condition s rest
  | [a, "-a", b] => a ≠ "" && b ≠ ""
  | [a, "-o", b] => a ≠ "" || b ≠ ""
  | [a, op, b] => compareTest a op b
  | _ => false

/-! Commands of the shell itself -/

/-- The numbers of signals by name. -/
def signalNumber (name : String) : Nat :=
  match name with
  | "HUP" => 1
  | "INT" => 2
  | "QUIT" => 3
  | "ABRT" => 6
  | "KILL" => 9
  | "SEGV" => 11
  | "PIPE" => 13
  | "ALRM" => 14
  | "TERM" => 15
  | n => n.toNat?.getD 15

/-- The signal and the targets of `kill`. -/
def killArgs : List String → Nat × List String
  | "-s" :: name :: rest => (signalNumber name, rest)
  | a :: rest =>
    match a.toList with
    | '-' :: 'S' :: 'I' :: 'G' :: name => (signalNumber (String.ofList name), rest)
    | '-' :: name => (signalNumber (String.ofList name), rest)
    | _ => (15, a :: rest)
  | [] => (15, [])

/-- Gives the words of a line to names; the last name gets the rest. -/
def assignWords : List String → List Char → Shell → Shell
  | [], _, s => s
  | [name], cs, s =>
    let blank (c : Char) : Bool := c = ' ' || c = '\t'
    let front := cs.dropWhile blank
    s.setParam name (String.ofList (front.reverse.dropWhile blank).reverse)
  | name :: names, cs, s =>
    let blank (c : Char) : Bool := c = ' ' || c = '\t'
    let front := cs.dropWhile blank
    assignWords names (front.dropWhile (!blank ·))
      (s.setParam name (String.ofList (front.takeWhile (!blank ·))))

/-- Reads a line of the input into names. -/
def readLine (s : Shell) (names : List String) : Shell :=
  let line := s.input.takeWhile (· ≠ 10)
  let rest := s.input.dropWhile (· ≠ 10)
  let s := assignWords names (Text.decodeLossy line).toList { s with input := rest.tail }
  s.ended (if rest.isEmpty then 1 else 0)

/-- Sets and exports the parameters that arguments name. -/
def exportAll : List String → Shell → Shell
  | [], s => s
  | a :: rest, s =>
    let name := String.ofList (a.toList.takeWhile (· ≠ '='))
    let s :=
      match a.toList.dropWhile (· ≠ '=') with
      | _ :: value => s.setParam name (String.ofList value)
      | [] => s
    exportAll rest { s with exported := name :: s.exported }

/-- Options and arguments of `set`. -/
def setOptions : List String → Shell → Shell
  | [], s => s
  | "--" :: args, s => { s with args := args }
  | o :: rest, s =>
    match o.toList with
    | '-' :: letters =>
      setOptions rest (if letters.contains 'e' then { s with strict := true } else s)
    | '+' :: letters =>
      setOptions rest (if letters.contains 'e' then { s with strict := false } else s)
    | _ => { s with args := o :: rest }

/-- The levels that a loop command names. -/
def levelsOf (args : List String) : Nat := ((args.head?.bind String.toNat?).getD 1) - 1

/-- A command that the shell carries out itself. -/
def builtin? (s : Shell) (line : Nat) (name : String) (args : List String) :
    Option (Shell × Flow) :=
  let done (s : Shell) : Option (Shell × Flow) := some (s, .next)
  match name with
  | ":" => done (s.ended 0)
  | "true" => done (s.ended 0)
  | "false" => done (s.ended 1)
  | "echo" => done ((s.emit .out (echoBytes args)).ended 0)
  | "printf" => done ((s.emit .out (printfBytes args)).ended 0)
  | "pwd" => done ((s.say .out ((Path.ofPlace s.cwd).text ++ "\n")).ended 0)
  | "test" => done (s.ended (if s.condition args then 0 else 1))
  | "[" => done (s.ended (if s.condition args.dropLast then 0 else 1))
  | "exit" =>
    let code := (args.head?.bind String.toNat?).getD s.status % 256
    some (s.ended code, .leave code)
  | "cd" =>
    match s.tree.find s.cwd ⟨args.headD "/"⟩ with
    | .ok (place, .dir _) => done ({ s with cwd := place }.ended 0)
    | _ => done ((s.complain line ("cd: can't cd to " ++ args.headD "/")).ended 2)
  | "read" => done (s.readLine (args.filter (· ≠ "-r")))
  | "shift" =>
    done ({ s with args := s.args.drop ((args.head?.bind String.toNat?).getD 1) }.ended 0)
  | "set" => done ((setOptions args s).ended 0)
  | "export" => done ((exportAll args s).ended 0)
  | "unset" => done ({ s with params := s.params.filter fun e => !args.contains e.1 }.ended 0)
  | "umask" => done (s.ended 0)
  | "trap" => done (s.ended 0)
  | "wait" => done (s.ended 0)
  | "break" => some (s.ended 0, .broken (levelsOf args))
  | "continue" => some (s.ended 0, .continued (levelsOf args))
  | "kill" =>
    let (signal, targets) := killArgs args
    if targets.contains ownNumber then some (s, .killed signal) else done (s.ended 1)
  | _ => none

/-- What is said of a process that a signal ended. -/
def signalText (signal : Nat) : String :=
  match signal with
  | 6 => "Aborted\n"
  | 9 => "Killed\n"
  | 11 => "Segmentation fault\n"
  | 15 => "Terminated\n"
  | _ => ""

/-- The shell after a process. -/
def afterProcess (s : Shell) (e : Ended) : Shell :=
  let s := { s with tree := e.tree }.relay e.printed
  if e.status % 128 = 0 then s.ended (e.status / 256)
  else (s.say .err (signalText (e.status % 128))).ended (128 + e.status % 128)

/-- Starts a process and waits for it. A file that is no program is run as a script. -/
def process (launch : Launcher) (s : Shell) (line : Nat) (name : String) (args : List String) :
    Shell :=
  let p : Process := ⟨name, args, s.cwd, s.environment, s.input⟩
  match launch p s.tree with
  | .ok e => s.afterProcess e
  | .error .permissionDenied => (s.complain line (name ++ ": Permission denied")).ended 126
  | .error .execFormat =>
    match launch { p with name := "/bin/sh", args := name :: args } s.tree with
    | .ok e => s.afterProcess e
    | .error _ => (s.complain line (name ++ ": not found")).ended 127
  | .error _ => (s.complain line (name ++ ": not found")).ended 127

/-- Sets parameters in order. -/
def setAll (capture : Capture) : List (String × Phrase) → Shell → Shell
  | [], s => s
  | (name, p) :: rest, s =>
    let (value, s) := (textOf capture p).run s
    setAll capture rest (s.setParam name value)

/-- Carries a simple command out. Settings in front of a command hold for that command only. -/
def simple (launch : Launcher) (capture : Capture) (s : Shell) (line : Nat)
    (settings : List (String × Phrase)) (words : List Phrase) (redirects : List Redirect) :
    Shell × Flow :=
  let (texts, s) := (allFields capture words).run s
  match redirectAll capture redirects s with
  | .error (s, text) => ((s.complain line text).ended 2, .next)
  | .ok led =>
    match texts with
    | [] => (restoring redirects s (setAll capture settings { led with status := 0 }), .next)
    | ["exec"] => (led, .next)
    | "exec" :: name :: args =>
      let t := process launch (setAll capture settings led) line name args
      (t, .leave t.status)
    | name :: args =>
      let set := setAll capture settings led
      let set := { set with exported := settings.map Prod.fst ++ set.exported }
      match set.builtin? line name args with
      | some (t, flow) =>
        (restoring redirects s t, flow)
      | none =>
        let t := process launch set line name args
        (restoring redirects s { t with params := led.params, exported := led.exported }, .next)

/-- A copy of the shell whose output is kept. -/
def child (s : Shell) : Shell :=
  { s with out := .stream .out, err := .stream .err, printed := [] }

/-- The flow in a shell whose child went on with `flow`. -/
def childFlow : Flow → Flow
  | .killed n => .killed n
  | _ => .next

/-- The exit code with which a child ends. -/
def childCode (s : Shell) : Flow → Nat
  | .leave n => n
  | _ => s.status

/-- The outcome of a step inside a loop, for the loop: whether it goes on, and the flow after it. -/
def loopFlow : Flow → Bool × Flow
  | .next => (true, .next)
  | .continued 0 => (true, .next)
  | .continued (n + 1) => (false, .continued n)
  | .broken 0 => (false, .next)
  | .broken (n + 1) => (false, .broken n)
  | flow => (false, flow)

/-- Runs one script after the other. -/
def inOrder (exec : Script → Shell → Shell × Flow) : List Script → Shell → Shell × Flow
  | [], s => (s, .next)
  | a :: rest, s =>
    match exec a s with
    | (s, .next) => inOrder exec rest s
    | other => other

/-- Runs a body once for every value of a parameter. -/
def forEach (exec : Shell → Shell × Flow) (name : String) : List String → Shell → Shell × Flow
  | [], s => (s, .next)
  | v :: rest, s =>
    let (s, flow) := exec (s.setParam name v)
    match loopFlow flow with
    | (true, _) => forEach exec name rest s
    | (false, flow) => (s, flow)

/-- Runs a body as long as a condition has the wanted outcome. -/
def whileRunning (wanted : Bool) (condition body : Shell → Shell × Flow) :
    Nat → Nat → Shell → Shell × Flow
  | 0, _, s => (s.ended 1, .leave 1)
  | rounds + 1, last, s =>
    match condition s with
    | (s, .next) =>
      if decide (s.status = 0) = wanted then
        let (s, flow) := body s
        match loopFlow flow with
        | (true, _) => whileRunning wanted condition body rounds s.status s
        | (false, flow) => (s, flow)
      else (s.ended last, .next)
    | other => other

/-- Runs scripts with the output of each as the input of the next. -/
def piped (exec : Script → Shell → Shell × Flow) : List Script → Shell → Shell × Flow
  | [], s => (s, .next)
  | a :: rest, s =>
    let (t, flow) := exec a s.child
    let code := t.childCode flow
    let s := { s with tree := t.tree, status := code }
    match rest with
    | [] => (s.relay t.printed, childFlow flow)
    | _ =>
      let s := s.relay (t.printed.filter (·.1 = .err))
      let bytes := (t.printed.filter (·.1 = .out)).flatMap Prod.snd
      piped exec rest { s with input := bytes }

/-- Drops the line ends at the end. -/
def withoutLineEnds (text : String) : String :=
  String.ofList (text.toList.reverse.dropWhile (· = '\n')).reverse

/-- Whether one of some patterns fits a subject. -/
def anyFits (capture : Capture) (subject : String) : List Phrase → Shell → Bool × Shell
  | [], s => (false, s)
  | p :: rest, s =>
    let (g, s) := (globOf capture p).run s
    if Glob.fits g subject.toList then (true, s) else anyFits capture subject rest s

/-- The first arm with a pattern that fits. -/
def armFor (capture : Capture) (subject : String) :
    List (List Phrase × Script) → Shell → Option Script × Shell
  | [], s => (none, s)
  | (patterns, body) :: rest, s =>
    match anyFits capture subject patterns s with
    | (true, s) => (some body, s)
    | (false, s) => armFor capture subject rest s

/-- Leaves after a failure where the shell is strict. -/
def strictly (checked : Bool) (r : Shell × Flow) : Shell × Flow :=
  match r with
  | (s, .next) => if s.strict && !checked && s.status ≠ 0 then (s, .leave s.status) else (s, .next)
  | other => other

/-- How many rounds a loop may take. -/
def maxRounds : Nat := 10000

/-- Runs a script. `checked` says that its exit code is looked at. -/
def exec (launch : Launcher) : Nat → Bool → Script → Shell → Shell × Flow
  | 0, _, _, s => (s.ended 2, .leave 2)
  | fuel + 1, checked, script, s =>
    let capture : Capture := fun source s =>
      match Script.read source with
      | none => ("", s.ended 2)
      | some inner =>
        let (t, flow) := exec launch fuel false inner s.child
        let out := (t.printed.filter (·.1 = .out)).flatMap Prod.snd
        let s := { s with tree := t.tree, status := t.childCode flow }
        (withoutLineEnds (Text.decodeLossy out), s.relay (t.printed.filter (·.1 = .err)))
    let go := exec launch fuel
    match script with
    | .simple line settings words redirects =>
      strictly checked (simple launch capture s line settings words redirects)
    | .sequence scripts => inOrder (go checked) scripts s
    | .pipe scripts =>
      let (t, flow) := piped (go checked) scripts s
      strictly checked ({ restoring [] s t with input := s.input }, flow)
    | .negated a =>
      match go true a s with
      | (s, .next) => (s.ended (if s.status = 0 then 1 else 0), .next)
      | other => other
    | .both a b =>
      match go true a s with
      | (s, .next) => if s.status = 0 then go checked b s else (s, .next)
      | other => other
    | .either a b =>
      match go true a s with
      | (s, .next) => if s.status = 0 then (s, .next) else go checked b s
      | other => other
    | .apart a =>
      let (t, flow) := go checked a s.child
      let s := { s with tree := t.tree, input := t.input, status := t.childCode flow }
      (s.relay t.printed, childFlow flow)
    | .led a redirects =>
      match redirectAll capture redirects s with
      | .error (s, text) => ((s.complain 1 text).ended 2, .next)
      | .ok led =>
        let (t, flow) := go checked a led
        (restoring redirects s t, flow)
    | .choice condition yes no =>
      match go true condition s with
      | (s, .next) =>
        if s.status = 0 then go checked yes s
        else
          match no with
          | .sequence [] => (s.ended 0, .next)
          | _ => go checked no s
      | other => other
    | .repeated wanted condition body =>
      whileRunning wanted (go true condition) (go checked body) maxRounds 0 s
    | .each name words body =>
      let (values, s) :=
        match words with
        | none => (s.args, s)
        | some ps => (allFields capture ps).run s
      forEach (go checked body) name values (s.ended 0)
    | .byPattern subject arms =>
      let (text, s) := (textOf capture subject).run s
      match armFor capture text arms s with
      | (some body, s) => go checked body (s.ended 0)
      | (none, s) => (s.ended 0, .next)

/-- How deep a script may nest. -/
def maxNesting : Nat := 500

/-- Runs the text of a script to its end. -/
def runText (launch : Launcher) (text : String) (s : Shell) : Ended :=
  match Script.read text with
  | none =>
    let s := s.say .err (s.zero ++ ": 1: Syntax error\n")
    .exiting 2 s.tree s.printed
  | some script =>
    match exec launch maxNesting false script s with
    | (s, .killed signal) => ⟨signal, s.tree, s.printed⟩
    | (s, .leave code) => .exiting code s.tree s.printed
    | (s, _) => .exiting s.status s.tree s.printed

end Shell

end HostSuite.Posix
