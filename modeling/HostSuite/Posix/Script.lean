/-
  Scripts of the command language. A word is a list of parts that are put together when the word
  is used; what a quoted part gives is taken as it is. A script is built from simple commands by
  sequence, pipe, choice and repetition, and may have its input and output led elsewhere.
-/

namespace HostSuite.Posix

/-- Which end of a value a pattern is taken off, and how much of it. -/
inductive Trimming
  | shortFront
  | longFront
  | shortBack
  | longBack
  deriving DecidableEq, Repr

/-- When the word beside a parameter is used in its place. -/
inductive Instead
  | whenMissing
  | whenPresent
  deriving DecidableEq, Repr

/-- Parts of a word. `quoted` parts are neither split nor taken as patterns. -/
inductive Part
  | text (s : String) (quoted : Bool)
  | param (name : String) (quoted : Bool)
  | size (name : String) (quoted : Bool)
  | trimmed (name : String) (how : Trimming) (pattern : List Part) (quoted : Bool)
  | instead (name : String) (use : Instead) (emptyCounts : Bool) (word : List Part) (quoted : Bool)
  | output (source : String) (quoted : Bool)
  | computed (expression : String) (quoted : Bool)
  deriving Repr

abbrev Phrase := List Part

/-- Where a redirection leads. -/
inductive Leading
  | write
  | append
  | read
  | same
  deriving DecidableEq, Repr

structure Redirect where
  number : Nat
  leading : Leading
  target : Phrase
  deriving Repr

/-- The redirection gives another input. -/
def Redirect.feeds (r : Redirect) : Bool := r.number = 0

inductive Script
  | simple (line : Nat) (settings : List (String × Phrase)) (words : List Phrase)
      (redirects : List Redirect)
  | sequence (scripts : List Script)
  | pipe (scripts : List Script)
  | negated (s : Script)
  | both (first second : Script)
  | either (first second : Script)
  | apart (s : Script)
  | led (s : Script) (redirects : List Redirect)
  | choice (condition yes no : Script)
  | repeated (whileTrue : Bool) (condition body : Script)
  | each (name : String) (words : Option (List Phrase)) (body : Script)
  | byPattern (subject : Phrase) (arms : List (List Phrase × Script))
  deriving Repr

end HostSuite.Posix
