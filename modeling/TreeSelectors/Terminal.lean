/-!
# Text on a terminal

Parts of a text are shown in a colour or a weight between two control
sequences, one that turns it on and one that turns it off.
-/

namespace TreeSelectors

/-- How a terminal shows a text. -/
inductive Rendition where
  | bold
  | dim
  | green
  | yellow
  | cyan
deriving DecidableEq, Repr

namespace Rendition

/-- The parameter that turns a rendition on. -/
def on : Rendition → String
  | .bold => "1"
  | .dim => "2"
  | .green => "32"
  | .yellow => "33"
  | .cyan => "36"

/-- The parameter that turns a rendition off: the usual weight, or the usual
colour. -/
def off : Rendition → String
  | .bold | .dim => "0"
  | .green | .yellow | .cyan => "39"

def control (parameter : String) : String :=
  "\x1b[" ++ parameter ++ "m"

/-- A text between the control sequences of a rendition. -/
def apply (rendition : Rendition) (text : String) : String :=
  control rendition.on ++ text ++ control rendition.off

end Rendition

end TreeSelectors
