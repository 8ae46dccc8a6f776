/-
  Patterns over characters. A star stands for any text, a question mark for one character, a
  bracket for one character of a set; everything else stands for itself.
-/

namespace HostSuite.Posix

inductive Glob
  | one (c : Char)
  | anyOne
  | anyText
  | among (negated : Bool) (ranges : List (Char × Char))
  deriving DecidableEq, Repr

namespace Glob

/-- The pattern stands for this character. -/
def admits : Glob → Char → Bool
  | one c, d => c = d
  | anyOne, _ => true
  | anyText, _ => true
  | among negated ranges, d => negated != ranges.any fun (a, b) => a ≤ d && d ≤ b

/-- The whole text has the form of the patterns. -/
def fits : List Glob → List Char → Bool
  | [], cs => cs.isEmpty
  | anyText :: gs, [] => fits gs []
  | anyText :: gs, c :: cs => fits gs (c :: cs) || fits (anyText :: gs) cs
  | _ :: _, [] => false
  | g :: gs, c :: cs => g.admits c && fits gs cs
termination_by gs cs => gs.length + cs.length

/-- The characters and ranges of a bracket up to its end, and what follows. -/
def ranges? : Nat → List (Char × Bool) → List (Char × Char) →
    Option (List (Char × Char) × List (Char × Bool))
  | 0, _, _ => none
  | _, [], _ => none
  | fuel + 1, (c, q) :: rest, seen =>
    if c = ']' && !q && !seen.isEmpty then some (seen, rest)
    else
      match rest with
      | ('-', false) :: (d, dq) :: rest' =>
        if d = ']' && !dq then ranges? fuel rest (seen ++ [(c, c)])
        else ranges? fuel rest' (seen ++ [(c, d)])
      | _ => ranges? fuel rest (seen ++ [(c, c)])

/-- A bracket after its opening, if it has an end. -/
def bracket? (cs : List (Char × Bool)) : Option (Glob × List (Char × Bool)) :=
  let (negated, body) :=
    match cs with
    | ('!', false) :: rest => (true, rest)
    | ('^', false) :: rest => (true, rest)
    | _ => (false, cs)
  (ranges? (body.length + 1) body []).map fun (rs, rest) => (among negated rs, rest)

/-- The pattern that characters write; a quoted one always stands for itself. -/
def readFrom : Nat → List (Char × Bool) → List Glob
  | 0, _ => []
  | _, [] => []
  | fuel + 1, (c, quoted) :: rest =>
    if quoted then one c :: readFrom fuel rest
    else if c = '*' then anyText :: readFrom fuel rest
    else if c = '?' then anyOne :: readFrom fuel rest
    else if c = '[' then
      match bracket? rest with
      | some (g, rest) => g :: readFrom fuel rest
      | none => one c :: readFrom fuel rest
    else one c :: readFrom fuel rest

/-- The pattern that characters write. -/
def read (cs : List (Char × Bool)) : List Glob := readFrom (cs.length + 1) cs

end Glob

end HostSuite.Posix
