-- The program on the files of the machine. It takes a picture of the files
-- that a run may look at, runs on the picture, and writes back what changed.
import AnchoredBlocks.Console.Outlook
import AnchoredBlocks.TreeMaking

namespace AnchoredBlocks.Machine

open Console

/-- The location of a path without links and dots. -/
def locationOf (text : String) : Location := ⟨(Path.mk text).parts.filter (!·.isEmpty)⟩

/-- Adds a location of the machine and the directories above it. -/
def addLocation (t : FileTree) (l : Location) : IO FileTree := do
  let mut tree := t
  for n in List.range l.names.length do
    let here : Location := ⟨l.names.take (n + 1)⟩
    if (tree.entry? here).isNone then
      let whole := (← IO.currentDir) / here.path.text
      if ← whole.isDir then
        tree := tree.put here .plainDirectory
      else if ← whole.pathExists then
        let content ← IO.FS.readBinFile whole
        tree := tree.put here (.file content.toList FileTree.ordinaryMode)
  return tree

/-- The location that a path of the machine leads to, if there is one. -/
def find? (text : String) : IO (Option Location) := do
  try
    return some (locationOf (← IO.FS.realPath text).toString)
  catch _ => return none

/-- Adds what a path of the machine leads through. A name that stands for another location
is a link to it. -/
def addPath (t : FileTree) (p : Path) : IO FileTree := do
  let mut tree := t
  let whole := t.current.path.join p
  let mut above := Location.root
  for n in List.range whole.parts.length do
    let part := (whole.parts.drop n).headD ""
    match ← find? (Path.ofParts (whole.parts.take (n + 1))).text with
    | none => return tree
    | some found =>
      let name := above.child part
      if !Path.isIdle part && part ≠ ".." && name ≠ found then
        tree := tree.put name (.link found.path)
      tree ← addLocation tree found
      above := found
  return tree

/-- A picture of the files that a run may look at. -/
def picture (words : List String) : IO FileTree := do
  let current := locationOf (← IO.currentDir).toString
  let mut tree ← addLocation { current } current
  for _ in [0, 1] do
    for p in outlook words tree do
      tree ← addPath tree p
  return tree

/-- Writes a changed entry to the machine. A link gives way to the file, a file keeps its
permission bits. -/
def writeBack (before after : FileTree) (l : Location) : IO Unit := do
  match before.entry? l, after.entry? l with
  | some (.link _), some (.file content _) =>
    IO.FS.removeFile l.path.text
    IO.FS.writeBinFile l.path.text ⟨content.toArray⟩
  | _, some (.file content _) => IO.FS.writeBinFile l.path.text ⟨content.toArray⟩
  | _, _ => return ()

end AnchoredBlocks.Machine

open AnchoredBlocks in
def main (words : List String) : IO UInt32 := do
  let colours := Console.wantsColours (← IO.getEnv "CLICOLOR_FORCE") (← IO.getEnv "NO_COLOR")
    (← IO.getEnv "CLICOLOR") (← (← IO.getStdout).isTty)
  let tree ← Machine.picture words
  let run := Console.session words colours tree
  for l in tree.changedPlaces run.tree do
    Machine.writeBack tree run.tree l
  IO.print run.printed
  IO.eprint run.complained
  return run.code.toUInt32
