-- What the program says about a patch: one line for what became of it, the
-- likely causes of a failure, and the diff.
import AnchoredBlocks.Console.Style
import AnchoredBlocks.DefinitionFile
import AnchoredBlocks.LineDiff.Lines
import AnchoredBlocks.NearLine
import AnchoredBlocks.PatchPlan

namespace AnchoredBlocks.Console

/-! ## Lines -/

/-- A line of output. -/
def line (text : String) : String := text ++ "\n"

/-- The lines of a block in words. -/
def linesLabel (p : Plan) : String :=
  let first := p.span.firstLine p.content
  let last := p.span.lastLine p.content
  if first = last then s!"line {first}" else s!"lines {first}-{last}"

def doneMark (colours : Bool) : String := paint colours .green "✓"

def openMark (colours : Bool) : String := paint colours .yellow "⊙"

/-- A mark, the id of the patch, and what became of it. -/
def outcomeLine (mark : String) (d : Definition) (what : String) : String :=
  line (mark ++ " " ++ d.id ++ ": " ++ what)

def alreadyLine (colours : Bool) (d : Definition) (file : Path) : String :=
  outcomeLine (openMark colours) d ("Already applied to " ++ file.text)

def appliedLine (colours : Bool) (d : Definition) (p : Plan) (file : Path) : String :=
  outcomeLine (doneMark colours) d ("Applied to " ++ file.text ++ " (" ++ linesLabel p ++ ")")

def dryRunLines (colours : Bool) (d : Definition) (p : Plan) : String :=
  line (paint colours .cyan "[DRY RUN - nothing written]") ++
    outcomeLine (doneMark colours) d
      ("Would apply to " ++ p.file.text ++ " (" ++ linesLabel p ++ ")")

def checkLine (colours : Bool) (d : Definition) (p : Plan) : String :=
  if p.isDone then
    outcomeLine (doneMark colours) d ("Applied (" ++ p.file.text ++ ", " ++ linesLabel p ++ ")")
  else
    outcomeLine (openMark colours) d
      ("Not applied (" ++ p.file.text ++ ", block at " ++ linesLabel p ++ ")")

/-! ## The diff -/

/-- A line of a diff. A line without an end gets one. -/
def diffLine (colours : Bool) (fate : LineDiff.Fate) (text : List Char) : String :=
  let whole := String.ofList text ++ (if LineDiff.isEnded text then "" else "\n")
  match fate with
  | .kept => " " ++ whole
  | .removed => paint colours .red ("-" ++ whole)
  | .added => paint colours .green ("+" ++ whole)

/-- The diff of a plan. An empty line follows a text whose last line has no end. -/
def diffText (colours : Bool) (p : Plan) : String :=
  let old := Utf8.string p.content
  let new := Utf8.string p.patched
  line ("\n" ++ paint colours .dimmed ("--- " ++ p.file.text ++ " (original)")) ++
    line (paint colours .dimmed ("+++ " ++ p.file.text ++ " (patched)")) ++
    String.join ((LineDiff.lineFates old.toList new.toList).map fun l => diffLine colours l.1 l.2) ++
    (if new.endsWith "\n" then "" else "\n")

/-! ## Failures -/

/-- What stands in red under a failed search, and what may have led to it. -/
def conflictLines (colours : Bool) (conflict : String) (notes : List String) : String :=
  line ("  " ++ paint colours .red ("CONFLICT: " ++ conflict)) ++
    String.join (notes.map fun note => line ("  " ++ note))

def possibleCauses (causes : List String) : List String :=
  "Possible causes:" :: causes.map ("  - " ++ ·)

/-- The line of the file that is nearest to a missing anchor. -/
def nearLineNote (colours : Bool) (t : FileTree) (file : Path) (anchor : String) : String :=
  match t.readText file with
  | .error _ => ""
  | .ok content =>
    match nearLine? content anchor with
    | none => ""
    | some near =>
      line (s!"  Closest line {near.line}: " ++
        paint colours .yellow (String.ofList near.text))

/-- What may have led to a failed search. -/
def searchNotes (colours : Bool) (t : FileTree) (file : Path) : SearchFailure → String
  | .noAnchor anchor =>
    conflictLines colours "Anchor matched no locations"
        (possibleCauses ["Target construct was renamed or removed",
          "Patch was already applied and rewrote the anchor"]) ++
      nearLineNote colours t file anchor
  | .noStart _ n =>
    conflictLines colours s!"No start marker before the anchor (line {n})"
      (possibleCauses ["Start marker was removed or changed",
        "Anchor now sits outside any delimited block"])
  | .noEnd _ n =>
    conflictLines colours s!"No end marker after the anchor (line {n})"
      (possibleCauses ["End marker was removed or changed", "Markers were reordered"])
  | .manyAnchors _ count =>
    conflictLines colours s!"Anchor matched {count} locations (expected 1)"
      ["Action: Make the anchor more specific"]
  | .emptyPattern _ => ""

/-- A failure with what is known about it. -/
def failureText (colours : Bool) (t : FileTree) (d : Definition) (e : PatchFailure) : String :=
  line (paint colours .red "✗" ++ " " ++ d.id ++ ": Error - " ++ e.message) ++
    match e with
    | .noBlock file failure =>
      line ("  File: " ++ file.text) ++ searchNotes colours t file failure
    | .notEdited (.changed file ..) =>
      line ("  File: " ++ file.text) ++
        line ("  " ++ paint colours .red "File changed while patching; nothing was written")
    | e => if e.isFromFiles then line "  Nothing was written" else ""

/-! ## Errors before a patch -/

/-- A text whose lines after the first one are indented. -/
def indented (margin text : String) : String := text.replace "\n" ("\n" ++ margin)

/-- The causes of an error. A single one has no number. -/
def causeLines : List String → String
  | [] => ""
  | [cause] => "\n\nCaused by:\n    " ++ indented "    " cause
  | causes =>
    "\n\nCaused by:" ++ String.join
      (causes.zipIdx.map fun (cause, n) => s!"\n    {n}: " ++ indented "       " cause)

/-- An error with its causes. -/
def errorText (message : String) (causes : List String) : String :=
  line ("Error: " ++ message ++ causeLines causes)

end AnchoredBlocks.Console
