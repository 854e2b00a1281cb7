-- Definitions as they are written down: a TOML document with what the patch
-- is about and the patch itself. A definition that is read is complete.
import AnchoredBlocks.Definition
import AnchoredBlocks.FileTree
import AnchoredBlocks.Toml.Document

namespace AnchoredBlocks

/-! ## Why there is no definition -/

/-- Why a definition was not read. The path is known when the document came from a
file. -/
inductive LoadFailure where
  | unreadable (path : Path) (refusal : Refusal)
  | badDocument (path : Option Path) (fault : Toml.Fault)
  | invalid (path : Option Path) (faults : Invalid)
  deriving DecidableEq, Repr

namespace LoadFailure

/-- What the failure under this one says. -/
def cause : LoadFailure → String
  | .unreadable _ refusal => refusal.message
  | .badDocument _ fault => fault.message
  | .invalid _ faults => faults.message

def path? : LoadFailure → Option Path
  | .unreadable path _ => some path
  | .badDocument path _ => path
  | .invalid path _ => path

def what : LoadFailure → String
  | .unreadable .. => "failed to read patch definition"
  | .badDocument .. => "failed to parse patch definition TOML"
  | .invalid .. => "invalid patch definition"

/-- The message up to its cause. -/
def opening (e : LoadFailure) : String :=
  match e.path? with
  | some path => e.what ++ " (" ++ path.text ++ "): "
  | none => e.what ++ ": "

def message (e : LoadFailure) : String := e.opening ++ e.cause

/-- The same failure of a document that came from a file. -/
def inFile (path : Path) : LoadFailure → LoadFailure
  | .badDocument none fault => .badDocument (some path) fault
  | .invalid none faults => .invalid (some path) faults
  | e => e

end LoadFailure

/-! ## From a table -/

namespace Replacement

def ofRecord (r : Toml.Record) : Except Toml.Fault Replacement := do
  .ok { text := ← r.text? 0 "text", file := ← r.text? 1 "file" }

end Replacement

namespace Definition

/-- The definition of a document. Keys that nobody asks for do not matter. -/
def ofFields (fields : Toml.Fields) : Except Toml.Fault Definition := do
  let document := Toml.Record.named fields
  let about ← document.record 0 "meta"
  let name ← about.text 0 "name"
  let description ← about.text? 1 "description"
  let fromWorkspace ← about.flag 2 "workspace_relative"
  let patch ← document.record 1 "patch"
  let id ← patch.text 0 "id"
  let file ← patch.text 1 "file"
  let anchor ← patch.text 2 "anchor"
  let start ← patch.text 3 "start_marker"
  let stop ← patch.text 4 "end_marker"
  let onlyAnchor ← patch.flag 5 "unique_anchor"
  let replacement ← Replacement.ofRecord (← patch.record 6 "replacement")
  .ok { name, description, fromWorkspace, id, file, markers := { anchor, start, stop },
        onlyAnchor, replacement }

/-- A way to read a definition from a text. -/
abbrev Reader := String → Except Toml.Fault Definition

/-- The way the program reads them. -/
def ownReader : Reader := fun text => (Toml.read text).bind ofFields

/-- The definition that a reader finds in a text, if it says enough. -/
def ofTextBy (read : Reader) (text : String) : Except LoadFailure Definition :=
  match read text with
  | .error fault => .error (.badDocument none fault)
  | .ok d =>
    match d.check with
    | .error faults => .error (.invalid none faults)
    | .ok () => .ok d

/-- The definition that a reader finds in a file. Its replacement is looked up from the
directory of that file. -/
def loadBy (read : Reader) (t : FileTree) (p : Path) : Except LoadFailure Definition :=
  match t.readText p with
  | .error refusal => .error (.unreadable p refusal)
  | .ok content =>
    match ofTextBy read (Utf8.string content) with
    | .error failure => .error (failure.inFile p)
    | .ok d => .ok { d with origin := p.parent? }

/-- The definition of a document. -/
def ofText : String → Except LoadFailure Definition := ofTextBy ownReader

/-- The definition in a file. -/
def load : FileTree → Path → Except LoadFailure Definition := loadBy ownReader

end Definition

end AnchoredBlocks
