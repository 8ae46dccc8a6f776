import HostSuite.Tree.Resolve

/-
  Looking a program up. A name of one part is looked for in some directories, in order; any other
  name is a path of its own, seen from the place where the program that asks is working.
-/

namespace HostSuite.Tree

/-- The paths at which a program of this name may be. -/
def programPaths (base : Place) (dirs : List Path) (name : String) : List Path :=
  if name = "" then []
  else if 1 < (⟨name⟩ : Path).partCount then [(⟨name⟩ : Path).seenFrom base]
  else dirs.map (·.join name)

/-- The first of these paths that leads to a program. -/
def lookUp (base : Place) (dirs : List Path) (t : Tree) (name : String) : Option Path :=
  (programPaths base dirs name).find? (t.isProgram base ·)

end HostSuite.Tree
