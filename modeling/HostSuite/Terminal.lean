import HostSuite.Text.Lines

/-
  What the terminal shows. Styled text is wrapped in escape sequences, the colour before the
  weight, only where styling is on. A labelled line is a bold coloured label, a colon and a
  message; a banner stands between two bars; a spinner has a text of its own.
-/

namespace HostSuite

inductive Stream
  | out
  | err
  deriving DecidableEq, Repr

inductive Colour
  | red
  | green
  | yellow
  | blue
  | cyan
  deriving DecidableEq, Repr

/-- Number of the escape sequence that switches a colour on. -/
def Colour.code : Colour → String
  | .red => "31"
  | .green => "32"
  | .yellow => "33"
  | .blue => "34"
  | .cyan => "36"

inductive Weight
  | bold
  | dim
  deriving DecidableEq, Repr

def Weight.code : Weight → String
  | .bold => "1"
  | .dim => "2"

/-- Whether text is styled. -/
structure Style where
  enabled : Bool
  deriving DecidableEq, Repr

namespace Style

def plain : Style := ⟨false⟩

private def escape (code : String) : String := "\x1b[" ++ code ++ "m"

/-- The text in a colour and a weight. -/
def paint (s : Style) (colour : Option Colour) (weight : Option Weight) (text : String) : String :=
  if s.enabled then
    (colour.elim "" fun c => escape c.code) ++ (weight.elim "" fun w => escape w.code) ++ text ++
      escape "0"
  else text

def label (s : Style) (c : Colour) (text : String) : String := s.paint (some c) (some .bold) text

def dim (s : Style) (text : String) : String := s.paint none (some .dim) text

def bold (s : Style) (text : String) : String := s.paint none (some .bold) text

end Style

/-- Kinds of labelled lines. -/
inductive Notice
  | error
  | warning
  | success
  | info
  deriving DecidableEq, Repr

namespace Notice

def word : Notice → String
  | error => "error"
  | warning => "warning"
  | success => "success"
  | info => "info"

def colour : Notice → Colour
  | error => .red
  | warning => .yellow
  | success => .green
  | info => .blue

/-- Trouble goes to the error output. -/
def stream : Notice → Stream
  | error | warning => .err
  | success | info => .out

/-- The labelled line. -/
def line (n : Notice) (s : Style) (message : String) : String :=
  s.label n.colour n.word ++ ": " ++ message ++ "\n"

end Notice

/-- What is waited for behind a spinner. -/
inductive Spinner
  | merge
  | page
  deriving DecidableEq, Repr

/-- The text beside the spinner. -/
def Spinner.message : Spinner → String
  | merge => "lcov merge"
  | page => "genhtml"

/-- A title between two bars. -/
def banner (title : String) : String := "========== " ++ title ++ " =========="

/-- The text as lines of its own, each moved right by two spaces. -/
def indented (text : String) : String :=
  String.join ((Text.lines text).map fun l => "  " ++ l ++ "\n")

end HostSuite
