import HostSuite.Coverage.Tracefile

/-
  The page that shows a tracefile. Rendering it gives the path of the index page.
-/

namespace HostSuite.Coverage

def htmlCommand (genhtml : String) (tracefile dir : Path) (title : String) (cwd : Path) : Command :=
  ((((Command.new genhtml cwd).pathArg tracefile).arg "--output-directory").pathArg dir).addArgs
    ["--quiet", "--title", title]

/-- Renders a tracefile. -/
def renderHtml (h : Host) (genhtml : String) (tracefile dir : Path) (title : String) (cwd : Path) :
    Action (Except Fault Path) := do
  let outcome ← Action.invoke h (htmlCommand genhtml tracefile dir title cwd)
  if succeeded outcome then return .ok (dir.join "index.html")
  else return .error (.reportFailure tracefile (troubleOf outcome))

end HostSuite.Coverage
