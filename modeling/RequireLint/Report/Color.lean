import RequireLint.Text

/-!
# Colours

Output is coloured by terminal escapes when it is wanted.
-/

namespace RequireLint

inductive ColorMode where
  /-- On a terminal, unless the environment forbids it. -/
  | auto
  | always
  | never
deriving Repr, DecidableEq

/-- Whether output is coloured, given whether it goes to a terminal and whether the environment
forbids colours. -/
def ColorMode.useColors (mode : ColorMode) (isTerminal forbidden : Bool) : Bool :=
  match mode with
  | always => true
  | never => false
  | auto => isTerminal && !forbidden

/-- What can be done to the look of a text. -/
inductive Style where
  | red
  | green
  | yellow
  | cyan
  | bold
  | dim
deriving Repr, DecidableEq

namespace Style

def escape (code : Text) : Text := ['\x1b', '['] ++ code ++ ['m']

def code : Style → Text
  | red => "31"
  | green => "32"
  | yellow => "33"
  | cyan => "36"
  | bold => "1"
  | dim => "2"

def start (style : Style) : Text := escape style.code

def reset : Text := escape "0"

end Style

def paint (useColors : Bool) (style : Style) (t : Text) : Text :=
  if useColors then style.start ++ t ++ Style.reset else t

end RequireLint
