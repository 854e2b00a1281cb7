-- The paths that a run may look at. They are known only step by step, because
-- a patch file names further files, so the outlook grows with the tree.
import AnchoredBlocks.Console.Session

namespace AnchoredBlocks.Console

/-- The paths among the words of a command. -/
def Command.namedPaths (c : Command) : List Path :=
  let (target, replacement) := c.parts
  (target.file.toList ++ target.patch.toList ++ (replacement.bind (·.file)).toList).map Path.mk

/-- The workspace and the version store in it. -/
def workspacePaths : Option String → List Path
  | none => []
  | some root => [⟨root⟩, Path.join ⟨root⟩ Fence.storeName]

/-- The files that a definition names. -/
def definitionPaths (t : FileTree) (w : Workspace) (d : Definition) : List Path :=
  w.lookupPath t d :: d.replacement.file.toList.map d.replacementPath

/-- The paths that a command line leads to, as far as the tree shows them. -/
def CommandLine.outlook (c : CommandLine) (t : FileTree) : List Path :=
  workspacePaths c.workspace ++ c.command.namedPaths ++
    match workspaceOf t c.workspace, definitionOf t c.command.parts.1 c.command.parts.2 with
    | .ok w, .ok d => definitionPaths t w d
    | _, _ => []

/-- The paths that the words of a run lead to. -/
def outlook (words : List String) (t : FileTree) : List Path :=
  match request? words with
  | some (.run c) => c.outlook t
  | _ => []

end AnchoredBlocks.Console
