-- The lines of a text, for numbering. A newline ends a line, a carriage
-- return right before it belongs to that end, and a last line may have no end.
import AnchoredBlocks.ByteText

namespace AnchoredBlocks

/-- A line without the carriage return at its end. -/
def withoutReturn (line : Bytes) : Bytes :=
  if line.getLast? = some 13 then line.dropLast else line

/-- The lines that end in a newline, and the rest. `pending` holds the bytes of the line
read so far, last first. -/
def linesFrom (pending : Bytes) : Bytes → List Bytes
  | [] => if pending.isEmpty then [] else [pending.reverse]
  | b :: rest =>
    if b = newline then withoutReturn pending.reverse :: linesFrom [] rest
    else linesFrom (b :: pending) rest

/-- The lines of a text without their ends. -/
def textLines (text : Bytes) : List Bytes := linesFrom [] text

end AnchoredBlocks
