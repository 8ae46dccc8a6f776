import HostSuite.Tree.Edit

/-
  Layouts: lists of entries from which a tree is set up or changed. Missing directories above
  an entry are made; writing a file replaces its content and mode; removing is deep and does
  not mind what is missing.
-/

namespace HostSuite

inductive LayoutEntry
  | dir (path : Path)
  | link (path : Path) (target : String)
  | file (path : Path) (content : Text.Bytes) (mode : Nat)
  | absent (path : Path)
  deriving DecidableEq, Repr

/-- The entry as seen from a directory. -/
def LayoutEntry.within (dir : Path) : LayoutEntry → LayoutEntry
  | .dir p => .dir (dir.join p.text)
  | .link p target => .link (dir.join p.text) target
  | .file p content mode => .file (dir.join p.text) content mode
  | .absent p => .absent (dir.join p.text)

namespace Tree

/-- The tree with the directories above a path. -/
def withParents (t : Tree) (base : Place) (p : Path) : Tree :=
  match p.parent? with
  | some above => (t.makeDirs base above).1
  | none => t

/-- Brings one entry about as far as it can be. -/
def putEntry (t : Tree) (base : Place) : LayoutEntry → Tree
  | .dir p => (t.makeDirs base p).1
  | .link p target =>
    let t := t.withParents base p
    match t.resolve base p.withoutSlash false with
    | .ok place => if (t.lookup place).isSome then t else t.set place (.link target)
    | .error _ => t
  | .file p content mode =>
    let t := t.withParents base p
    match t.write base p content with
    | .ok t => (t.setMode base p mode).toOption.getD t
    | .error _ => t
  | .absent p =>
    match t.find base p false with
    | .ok (_, .dir _) => (t.removeDirs base p).1
    | .ok _ => (t.removeFile base p).toOption.getD t
    | .error _ => t

/-- Brings the entries about one after the other. -/
def putAll (t : Tree) (base : Place) (entries : List LayoutEntry) : Tree :=
  entries.foldl (fun t e => t.putEntry base e) t

end Tree

end HostSuite
