import HostSuite.Machine
import HostSuite.Project.TestBinary
import HostSuite.Tree.Layout

/-
  Hosts that answer by rule. A rule says which commands it answers, what it changes in the tree
  first, and what comes of the command. The first rule that applies answers; a rule can be limited
  to a number of answers, counted over all commands before. A command that no rule answers
  succeeds without output.
-/

namespace HostSuite

/-- A rule: conditions, effects as seen from the working directory of the command, and an answer. -/
structure Rule where
  program : Option String := none
  programEnds : Option String := none
  cwdEnds : Option String := none
  has : List String := []
  lacks : List String := []
  limit : Option Nat := none
  effects : List LayoutEntry := []
  answer : Outcome

/-- A command that succeeded at once and printed nothing. -/
def silentSuccess : CommandResult where
  success := true
  exitCode := 0
  stdout := ""
  stderr := ""
  elapsed := 0

namespace Rule

/-- The command meets the conditions. -/
def applies (r : Rule) (c : Command) : Bool :=
  r.program.all (· = c.program) && r.programEnds.all (Project.endsWith c.program) &&
    r.cwdEnds.all (Project.endsWith c.cwd.text) && r.has.all c.args.contains &&
    r.lacks.all fun a => !c.args.contains a

/-- The rule may answer once more after `used` answers. -/
def isOpen (r : Rule) (used : Nat) : Bool := r.limit.all (used < ·)

end Rule

/-- Rules with the number of answers each has given. -/
abbrev Rulebook := List (Rule × Nat)

namespace Rulebook

/-- The rule that answers a command. -/
def answering (b : Rulebook) (c : Command) : Option Rule :=
  (b.find? fun (r, used) => r.applies c && r.isOpen used).map Prod.fst

/-- The rules after one of them has answered a command. -/
def after (c : Command) : Rulebook → Rulebook
  | [] => []
  | (r, used) :: rest =>
    if r.applies c && r.isOpen used then (r, used + 1) :: rest else (r, used) :: after c rest

end Rulebook

/-- The host that answers by rules. -/
def ruled (base : Place) (rules : List Rule) : Runner := fun history c t =>
  let book : Rulebook := history.foldl (fun b c => Rulebook.after c b) (rules.map (·, 0))
  match book.answering c with
  | none => ⟨.ok silentSuccess, t, []⟩
  | some r =>
    ⟨r.answer, t.putAll base (r.effects.map (·.within c.cwd)), []⟩

end HostSuite
