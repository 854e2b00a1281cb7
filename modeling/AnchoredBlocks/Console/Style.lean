-- Colours on a terminal. A style opens before its text and closes after it,
-- and opens again where the text itself closes one.

namespace AnchoredBlocks.Console

/-- The styles that the program uses. -/
inductive Style where
  | red
  | green
  | yellow
  | cyan
  | dimmed
  deriving DecidableEq, Repr

/-- The sequence that opens a style. -/
def Style.opening : Style → String
  | .red => "\x1b[31m"
  | .green => "\x1b[32m"
  | .yellow => "\x1b[33m"
  | .cyan => "\x1b[36m"
  | .dimmed => "\x1b[2m"

/-- The sequence that closes every style. -/
def closing : String := "\x1b[0m"

/-- A text in a style, or plain where there are no colours. -/
def paint (colours : Bool) (style : Style) (text : String) : String :=
  if colours then
    style.opening ++ text.replace closing (closing ++ style.opening) ++ closing
  else text

/-- What a setting of the environment says. Anything but a zero means yes. -/
def saysYes (setting : String) : Bool := setting ≠ "0"

/-- Whether to use colours. To force them wins over to forbid them, and without either word
they are for terminals. -/
def wantsColours (force forbid allow : Option String) (terminal : Bool) : Bool :=
  if force.any saysYes then true
  else if forbid.isSome then false
  else terminal && allow.all saysYes

end AnchoredBlocks.Console
