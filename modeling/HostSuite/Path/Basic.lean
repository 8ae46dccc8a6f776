import HostSuite.Text.Lines

/-
  Paths as they are written. Joining neither resolves `.` and `..` nor collapses slashes; an
  absolute path replaces the one it is joined to, and joining the empty text leaves a slash at
  the end. The segments are the parts between slashes that are not empty.
-/

namespace HostSuite

structure Path where
  text : String
  deriving DecidableEq, Repr, Inhabited

namespace Path

def isAbsolute (p : Path) : Bool := p.text.toList.head? = some '/'

/-- `child` as seen from `p`. -/
def join (p : Path) (child : String) : Path :=
  if child.toList.head? = some '/' then ⟨child⟩
  else if p.text.toList.isEmpty || p.text.toList.getLast? = some '/' then ⟨p.text ++ child⟩
  else ⟨p.text ++ "/" ++ child⟩

/-- The parts between slashes, without the empty ones. -/
def segments (p : Path) : List String := (Text.splitAt '/' p.text).filter (· ≠ "")

/-- The segments without the ones that stay in place. -/
def steps (p : Path) : List String := p.segments.filter (· ≠ ".")

/-- The path ends in a slash, so it can only name a directory. -/
def endsInSlash (p : Path) : Bool := p.text.toList.getLast? = some '/'

/-- The last step, when it is a name. -/
def fileName (p : Path) : Option String :=
  match p.steps.getLast? with
  | some ".." => none
  | last => last

/-- The part of the file name after its last dot; a dot in front starts no extension. -/
def extension (p : Path) : Option String :=
  p.fileName.bind fun name =>
    let parts := Text.pieces '.' name.toList
    if parts.length < 2 || (parts.length = 2 && parts.head? = some []) then none
    else parts.getLast?.map String.ofList

/-- The parts that count: the top of an absolute path, a leading step in place, and the steps. -/
def partCount (p : Path) : Nat :=
  (if p.isAbsolute then 1 else if p.segments.head? = some "." then 1 else 0) + p.steps.length

/-- The path of the given names from the top. -/
def ofPlace (names : List String) : Path := ⟨"/" ++ "/".intercalate names⟩

/-- The path as seen from a place: an absolute one stays as it is written, of another the steps
are taken from there. -/
def seenFrom (base : List String) (p : Path) : Path :=
  if p.isAbsolute then p else p.steps.foldl join (ofPlace base)

/-- The path without its last step, or nothing when there is no step. -/
def parent? (p : Path) : Option Path :=
  if p.steps.isEmpty then none
  else
    let front := "/".intercalate p.steps.dropLast
    some ⟨if p.isAbsolute then "/" ++ front else front⟩

/-- One lexical step from a place: in place, up, or down into a name. -/
def lexicalStep (place : List String) (step : String) : List String :=
  if step = "." || step = "" then place
  else if step = ".." then place.dropLast
  else place ++ [step]

/-- The place that the written path names when links are not followed. -/
def lexical (p : Path) : List String := p.segments.foldl lexicalStep []

end Path

/-- The address of a page on this machine. -/
def fileUrl (p : Path) : String := "file://" ++ p.text

end HostSuite
