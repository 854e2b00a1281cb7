-- A fence around a workspace. Paths are judged by the location they lead to,
-- never by the way they are written, so no link and no dots lead out of it.
-- The version store of the workspace lies behind a fence of its own.
import AnchoredBlocks.FileTree

namespace AnchoredBlocks

/-- The location of a workspace, and the place within it that no patch may touch. -/
structure Fence where
  root : Location
  barred : Option Location
  deriving DecidableEq, Repr

/-- Why a path does not pass the fence. -/
inductive FenceFailure where
  | outside (found root : Location)
  | offLimits (found barred : Location)
  | unresolved (path : Path) (refusal : Refusal)
  deriving DecidableEq, Repr

def FenceFailure.message : FenceFailure → String
  | .outside found root =>
    "Path is outside workspace: " ++ found.path.text ++ " (workspace: " ++ root.path.text ++ ")"
  | .offLimits found barred =>
    "Path is in forbidden directory: " ++ found.path.text ++ " (forbidden: " ++
      barred.path.text ++ ")"
  | .unresolved path refusal =>
    "Failed to canonicalize " ++ path.text ++ ": " ++ refusal.message

namespace Fence

/-- The name of the version store. -/
def storeName : Path := ⟨".git"⟩

/-- The fence around the place that a path leads to. -/
def around (t : FileTree) (p : Path) : Except FenceFailure Fence :=
  match t.resolve p with
  | .error refusal => .error (.unresolved p refusal)
  | .ok root => .ok ⟨root, (t.resolve (root.path.join storeName)).toOption⟩

/-- The location that a path leads to, seen from the root of the workspace, if it lies
inside and is not barred. -/
def locate (f : Fence) (t : FileTree) (p : Path) : Except FenceFailure Location :=
  let whole := f.root.path.join p
  match t.resolve whole with
  | .error refusal => .error (.unresolved whole refusal)
  | .ok found =>
    if ¬ found.Within f.root then .error (.outside found f.root)
    else
      match f.barred with
      | none => .ok found
      | some barred => if found.Within barred then .error (.offLimits found barred) else .ok found

end Fence

end AnchoredBlocks
