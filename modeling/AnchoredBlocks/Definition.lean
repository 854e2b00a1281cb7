-- Patch definitions: which block of which file, and what comes in its place.
-- A definition is judged as a whole, so one look shows all its faults.
import AnchoredBlocks.BlockSearch
import AnchoredBlocks.FilePath
import AnchoredBlocks.WhiteSpace

namespace AnchoredBlocks

/-! ## What comes in place of the block -/

/-- The fresh block, as a text or as the name of a file. One of them has to be set. -/
structure Replacement where
  text : Option String := none
  file : Option String := none
  deriving DecidableEq, Repr, Inhabited

/-- The one place that the fresh block comes from. -/
inductive Source where
  | text (text : String)
  | file (name : String)
  deriving DecidableEq, Repr

/-- What is wrong with a replacement. -/
inductive ReplacementFault where
  | both
  | neither
  | blankFile
  deriving DecidableEq, Repr

def ReplacementFault.message : ReplacementFault → String
  | .both => "replacement must set only one of 'text' or 'file'"
  | .neither => "replacement must set one of 'text' or 'file'"
  | .blankFile => "replacement 'file' must not be empty"

namespace Replacement

/-- The source, if exactly one is set. -/
def source? : Replacement → Option Source
  | ⟨some text, none⟩ => some (.text text)
  | ⟨none, some file⟩ => some (.file file)
  | _ => none

/-- The fault of a replacement, if it has one. An empty text is no fault. -/
def fault? : Replacement → Option ReplacementFault
  | ⟨some _, some _⟩ => some .both
  | ⟨none, none⟩ => some .neither
  | ⟨none, some file⟩ => if isBlankText file then some .blankFile else none
  | ⟨some _, none⟩ => none

end Replacement

/-! ## Definitions -/

/-- One patch. -/
structure Definition where
  name : String := ""
  description : Option String := none
  /-- The file is looked up from the workspace, not from the current directory. -/
  fromWorkspace : Bool := false
  id : String := ""
  file : String := ""
  markers : Markers := {}
  /-- More than one anchor in the file is a fault. -/
  onlyAnchor : Bool := false
  replacement : Replacement := {}
  /-- The directory of the file that the definition was read from. -/
  origin : Option Path := none
  deriving DecidableEq, Repr, Inhabited

/-- A definition that was not read from a file. -/
def Definition.inline (file : String) (markers : Markers) (replacement : Replacement) :
    Definition :=
  { id := "inline", file, markers, replacement }

/-! ## Faults -/

/-- The fields that a definition has to fill. -/
inductive Field where
  | id
  | file
  | anchor
  | startMarker
  | endMarker
  deriving DecidableEq, Repr

namespace Field

def name : Field → String
  | .id => "id"
  | .file => "file"
  | .anchor => "anchor"
  | .startMarker => "start_marker"
  | .endMarker => "end_marker"

/-- The field has nothing in it. Blanks fill an anchor or a marker, but no id and no
file. -/
def isMissing (d : Definition) : Field → Bool
  | .id => isBlankText d.id
  | .file => isBlankText d.file
  | .anchor => d.markers.anchor.isEmpty
  | .startMarker => d.markers.start.isEmpty
  | .endMarker => d.markers.stop.isEmpty

/-- All fields, in the order in which faults are told. -/
def all : List Field := [.id, .file, .anchor, .startMarker, .endMarker]

end Field

/-- One fault of a definition, with the id of the patch where it has one. -/
inductive Issue where
  | missing (patch : Option String) (field : Field)
  | badReplacement (patch : Option String) (fault : ReplacementFault)
  deriving DecidableEq, Repr

def Issue.message : Issue → String
  | .missing (some patch) field =>
    "patch '" ++ patch ++ "' missing required field '" ++ field.name ++ "'"
  | .missing none field => "patch missing required field '" ++ field.name ++ "'"
  | .badReplacement (some patch) fault =>
    "patch '" ++ patch ++ "' has invalid configuration: " ++ fault.message
  | .badReplacement none fault => "invalid patch configuration: " ++ fault.message

/-- The faults of a definition, told one to a line. -/
structure Invalid where
  issues : List Issue
  deriving DecidableEq, Repr

def Invalid.message (e : Invalid) : String := "\n".intercalate (e.issues.map Issue.message)

namespace Definition

/-- The id without blanks at its ends, if anything is left of it. -/
def patchId? (d : Definition) : Option String :=
  if isBlankText d.id then none else some (trim d.id)

/-- The id that a fault of a field shows. A missing id has none to show. -/
def shownId? (d : Definition) : Field → Option String
  | .id => none
  | _ => d.patchId?

/-- The faults that stand in the way of finding the block. -/
def targetIssues (d : Definition) : List Issue :=
  (Field.all.filter (Field.isMissing d)).map fun field => .missing (d.shownId? field) field

/-- All faults, those of the replacement last. -/
def issues (d : Definition) : List Issue :=
  d.targetIssues ++ (d.replacement.fault?.map (.badReplacement d.patchId?)).toList

/-- A list without faults passes. -/
def pass : List Issue → Except Invalid Unit
  | [] => .ok ()
  | issues => .error ⟨issues⟩

/-- The definition says enough to find its block. -/
def checkTarget (d : Definition) : Except Invalid Unit := pass d.targetIssues

/-- The definition says enough to replace its block. -/
def check (d : Definition) : Except Invalid Unit := pass d.issues

/-- The block of a text that the definition means. -/
def findBlock (d : Definition) (text : Bytes) : Except SearchFailure Span :=
  if d.onlyAnchor then d.markers.findOnly text else d.markers.find text

end Definition

end AnchoredBlocks
