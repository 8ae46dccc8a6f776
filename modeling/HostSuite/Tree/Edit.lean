import HostSuite.Tree.Resolve

/-
  Changes to a tree. Adding or removing a name needs a directory that may be written and
  searched; new files get mode 0644 and new directories 0755. A removal of a whole directory
  goes depth first in name order and stops at the first failure, so what it removed before
  stays removed. Everything else either happens or leaves the tree as it was.
-/

namespace HostSuite

namespace Path

/-- The path without the slashes at its end. -/
def withoutSlash (p : Path) : Path :=
  if p.segments.isEmpty then p
  else ⟨String.ofList (p.text.toList.reverse.dropWhile (· = '/')).reverse⟩

end Path

namespace Tree

/-- Names may be added to and removed from a directory with this mode. -/
def mayChange (mode : Nat) : Bool := hasBit mode writeBit && hasBit mode searchBit

/-- The directory around a place may be changed. -/
def mayChangeAround (t : Tree) (p : Place) : Bool :=
  match t.lookup p.dropLast with
  | some (.dir mode) => mayChange mode
  | _ => false

/-- Replaces the content of a file, or makes the file. -/
def write (t : Tree) (base : Place) (p : Path) (content : Text.Bytes) : Except IoError Tree :=
  match t.resolve base p with
  | .error e => .error e
  | .ok place =>
    match t.lookup place with
    | some (.file _ mode) =>
      if hasBit mode writeBit then .ok (t.set place (.file content mode))
      else .error .permissionDenied
    | some _ => .error .isDirectory
    | none =>
      if t.mayChangeAround place then .ok (t.set place (.file content 0o644))
      else .error .permissionDenied

/-- Removes a name that is not a directory; links are not followed. -/
def removeFile (t : Tree) (base : Place) (p : Path) : Except IoError Tree :=
  match t.find base p.withoutSlash false with
  | .error e => .error e
  | .ok (_, .dir _) => .error .isDirectory
  | .ok (place, _) =>
    if p.endsInSlash then .error .notDirectory
    else if t.mayChangeAround place then .ok (t.clear place)
    else .error .permissionDenied

/-- Makes one directory in a directory that is there. -/
def makeDir (t : Tree) (base : Place) (p : Path) : Except IoError Tree :=
  match t.resolve base p.withoutSlash false with
  | .error e => .error e
  | .ok place =>
    if (t.lookup place).isSome then .error .exists
    else if t.mayChangeAround place then .ok (t.set place (.dir 0o755))
    else .error .permissionDenied

/-- Makes a directory and those above it that are missing. A directory that is there is fine. -/
def makeDirsWith : Nat → Tree → Place → Path → Tree × Option IoError
  | 0, t, _, _ => (t, some .noEntry)
  | depth + 1, t, base, p =>
    let settle (t : Tree) : Tree × Option IoError :=
      match t.makeDir base p with
      | .ok made => (made, none)
      | .error e => if t.isDir base p then (t, none) else (t, some e)
    if p.text.toList.isEmpty then (t, none)
    else
      match t.makeDir base p, p.parent? with
      | .error .noEntry, some above =>
        match makeDirsWith depth t base above with
        | (made, none) => settle made
        | failed => failed
      | _, _ => settle t

/-- Makes a directory and those above it that are missing. -/
def makeDirs (t : Tree) (base : Place) (p : Path) : Tree × Option IoError :=
  makeDirsWith (p.steps.length + 2) t base p

/-- Removes the given names from the directory at `here`, emptying directories with `empty`. -/
def removeNames (empty : Tree → Place → Tree × Option IoError) (mode : Nat) (here : Place) :
    List String → Tree → Tree × Option IoError
  | [], t => (t, none)
  | name :: names, t =>
    let place := here ++ [name]
    let emptied :=
      match t.lookup place with
      | some (.dir _) => empty t place
      | _ => (t, none)
    match emptied with
    | (t, some e) => (t, some e)
    | (t, none) =>
      if mayChange mode then removeNames empty mode here names (t.clear place)
      else (t, some .permissionDenied)

/-- Removes everything in the directory at a place, to a depth. -/
def emptyDir : Nat → Tree → Place → Tree × Option IoError
  | 0, t, _ => (t, some .notEmpty)
  | depth + 1, t, here =>
    match t.lookup here with
    | some (.dir mode) =>
      if hasBit mode readBit then removeNames (emptyDir depth) mode here (t.namesIn here) t
      else (t, some .permissionDenied)
    | _ => (t, some .notDirectory)

/-- Deep enough for every place in the tree. -/
def depthBound (t : Tree) : Nat := t.nodes.size + 1

/-- Removes a directory with everything in it; a link is removed itself. The emptied directory
stays when its path ends in a step in place or up, or in a slash after a link, or when the path
led through what was removed. -/
def removeDirs (t : Tree) (base : Place) (p : Path) : Tree × Option IoError :=
  match t.find base p false with
  | .error e => (t, some e)
  | .ok (_, .file _ _) => (t, some .notDirectory)
  | .ok (place, .link _) =>
    if t.mayChangeAround place then (t.clear place, none) else (t, some .permissionDenied)
  | .ok (place, .dir _) =>
    match t.emptyDir t.depthBound place with
    | (t, some e) => (t, some e)
    | (t, none) =>
      match t.find base p.withoutSlash false with
      | .error e => (t, some e)
      | .ok (_, .link _) => (t, some .notDirectory)
      | .ok _ =>
        if p.segments.getLast? = some "." then (t, some .invalidArgument)
        else if p.segments.getLast? = some ".." then (t, some .notEmpty)
        else if place = [] then (t, some .busy)
        else if t.mayChangeAround place then (t.clear place, none)
        else (t, some .permissionDenied)

/-- Makes a directory ready unless its path names something already. -/
def ensureDir (t : Tree) (base : Place) (p : Path) : Tree × Option IoError :=
  if t.pathExists base p then (t, none) else t.makeDirs base p

/-- Removes a file unless there is none. -/
def removeFileIfThere (t : Tree) (base : Place) (p : Path) : Tree × Option IoError :=
  match t.removeFile base p with
  | .ok t => (t, none)
  | .error .noEntry => (t, none)
  | .error e => (t, some e)

/-- Removes a directory with everything in it unless there is none. -/
def removeDirsIfThere (t : Tree) (base : Place) (p : Path) : Tree × Option IoError :=
  match t.removeDirs base p with
  | (t, some .noEntry) => (t, none)
  | result => result

/-- Changes the mode of what a path names. -/
def setMode (t : Tree) (base : Place) (p : Path) (mode : Nat) : Except IoError Tree :=
  match t.find base p with
  | .error e => .error e
  | .ok (place, .file content _) => .ok (t.set place (.file content mode))
  | .ok ([], .dir _) => .error .permissionDenied
  | .ok (place, .dir _) => .ok (t.set place (.dir mode))
  | .ok (_, .link _) => .ok t

end Tree

end HostSuite
