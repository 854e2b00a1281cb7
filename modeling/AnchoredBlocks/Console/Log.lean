-- What the program tells about its steps. The steps are those that a run goes
-- through, so the log is read off from the same searches and plans.
import AnchoredBlocks.PatchPlan

namespace AnchoredBlocks.Console

/-! ## Entries -/

/-- How closely an entry follows the steps. -/
inductive Level where
  | info
  | debug
  deriving DecidableEq, Repr

/-- A step with what belongs to it, in order. -/
structure LogEntry where
  level : Level
  message : String
  details : List (String × String) := []
  deriving DecidableEq, Repr

abbrev Log := List LogEntry

/-- A character of a message. One that could steer a terminal is spelled out. -/
def harmless (c : Char) : String :=
  let n := c.toNat
  if n = 0x07 || n = 0x08 || n = 0x0C then "\\x0" ++ hexDigits n
  else if n = 0x1B || n = 0x7F then "\\x" ++ hexDigits n
  else if 0x80 ≤ n && n ≤ 0x9F then "\\u\x7b" ++ hexDigits n ++ "\x7d"
  else c.toString

/-- The line of an entry. The details stand as they are. -/
def LogEntry.line (e : LogEntry) : String :=
  let head := match e.level with
    | .info => " INFO "
    | .debug => "DEBUG "
  let message := String.join (e.message.toList.map harmless)
  head ++ message ++ String.join (e.details.map fun d => " " ++ d.1 ++ "=" ++ d.2) ++ "\n"

/-- How much of the log is wanted: steps from 1 on, details from 2 on. -/
def isWanted (verbosity : Nat) (e : LogEntry) : Bool :=
  match e.level with
  | .info => 1 ≤ verbosity
  | .debug => 2 ≤ verbosity

/-- The lines that are wanted. -/
def logText (verbosity : Nat) (log : Log) : String :=
  String.join ((log.filter (isWanted verbosity)).map LogEntry.line)

/-! ## The steps of a search -/

/-- The search found one of the three texts. -/
def foundAt (what : String) (offset : Nat) : LogEntry :=
  { level := .debug, message := what, details := [("offset", toString offset)] }

/-- The places that a search comes to, as far as it gets. -/
def findLog (m : Markers) (text : Bytes) : Log :=
  match m.emptyPattern?, m.anchorAt? text with
  | none, some anchor =>
    foundAt "anchor located" anchor ::
      match m.startAt? text anchor with
      | none => []
      | some start =>
        foundAt "start marker resolved" start ::
          match m.stopAt? text anchor with
          | none => []
          | some stop => [foundAt "end marker resolved" stop]
  | _, _ => []

/-- The places that the search of a definition comes to. Several anchors end it before it
begins, where only one may be there. -/
def searchLog (d : Definition) (text : Bytes) : Log :=
  match d.findBlock text with
  | .error (.manyAnchors ..) => []
  | _ => findLog d.markers text

/-! ## The steps of a command -/

def spanDetails (file : Path) (span : Span) : List (String × String) :=
  [("file", file.text), ("start", toString span.start), ("end", toString span.stop)]

/-- The search in the file of a definition, if there is one to search in. -/
def readLog (d : Definition) (t : FileTree) (w : Workspace) : Log :=
  match w.target t d with
  | .error _ => []
  | .ok file =>
    match t.readText file with
    | .error _ => []
    | .ok content => searchLog d content

/-- The steps of a plan. -/
def planLog (d : Definition) (t : FileTree) (w : Workspace) : Log :=
  match d.freshBlock t with
  | .error _ => []
  | .ok _ =>
    readLog d t w ++
      match d.plan t w with
      | .error _ => []
      | .ok p =>
        [{ level := .debug, message := "patch planned",
           details := spanDetails p.file p.span ++ [("already_applied", toString p.isDone)] }]

/-- The steps of a plan that is carried out. -/
def carryOutLog (p : Plan) (t : FileTree) : Log :=
  if p.isDone then []
  else
    match p.carryOut t with
    | .error _ => []
    | .ok (outcome, _) =>
      let edited := match outcome with
        | .applied .. =>
          { level := .info, message := "edit written",
            details := [("file", p.file.text), ("byte_start", toString p.span.start),
              ("byte_end", toString p.span.stop)] }
        | _ =>
          { level := .debug, message := "span already holds new text",
            details := [("file", p.file.text)] }
      [edited, { level := .info, message := outcome.message }]

/-- The steps that lead to a block which is shown. -/
def extractLog (d : Definition) (t : FileTree) (w : Workspace) : Log :=
  match d.checkTarget with
  | .error _ => []
  | .ok () =>
    readLog d t w ++
      match d.readBlock t w with
      | .error _ => []
      | .ok found =>
        [{ level := .debug, message := "block located",
           details := spanDetails found.file found.span },
         { level := .info, message := "block extracted",
           details := [("file", found.file.text),
             ("line", toString (found.span.firstLine found.content))] }]

end AnchoredBlocks.Console
