-- From a definition to a patched file. A plan is made from one look at the
-- file and the replacement, and carrying it out goes through a verified edit.
-- Planning never changes the tree.
import AnchoredBlocks.Definition
import AnchoredBlocks.Fence
import AnchoredBlocks.VerifiedEdit

namespace AnchoredBlocks

/-! ## Why there is no patch -/

/-- Why a patch was not planned or not made. -/
inductive PatchFailure where
  | invalid (faults : Invalid)
  | unreadableTarget (path : Path) (refusal : Refusal)
  | unreadableReplacement (path : Path) (refusal : Refusal)
  | fenced (failure : FenceFailure)
  | noBlock (file : Path) (failure : SearchFailure)
  | notEdited (failure : EditFailure)
  deriving DecidableEq, Repr

namespace PatchFailure

/-- What the failure under this one says. -/
def cause : PatchFailure → String
  | .invalid faults => faults.message
  | .unreadableTarget _ refusal => refusal.message
  | .unreadableReplacement _ refusal => refusal.message
  | .fenced failure => failure.message
  | .noBlock _ failure => failure.message
  | .notEdited failure => failure.message

def message (e : PatchFailure) : String :=
  match e with
  | .invalid _ => "invalid patch: " ++ e.cause
  | .unreadableTarget path _ => "I/O error on " ++ path.text ++ ": " ++ e.cause
  | .unreadableReplacement path _ =>
    "failed to read replacement from " ++ path.text ++ ": " ++ e.cause
  | .fenced _ => "unsafe target: " ++ e.cause
  | .noBlock file _ => e.cause ++ " in " ++ file.text
  | .notEdited _ => "edit error: " ++ e.cause

/-- The file system stood in the way. -/
def isFromFiles : PatchFailure → Bool
  | .unreadableTarget .. => true
  | .unreadableReplacement .. => true
  | .notEdited (.unreadable _) => true
  | _ => false

end PatchFailure

/-! ## Workspaces -/

/-- Where files are looked up, with or without a fence around it. -/
structure Workspace where
  root : Path
  fence : Option Fence
  deriving DecidableEq, Repr

namespace Workspace

/-- Files may be anywhere. The root only serves files looked up from the workspace. -/
def free (root : Path) : Workspace := ⟨root, none⟩

/-- Files have to lie inside the fence around the root. -/
def fenced (t : FileTree) (root : Path) : Except FenceFailure Workspace :=
  (Fence.around t root).map fun fence => ⟨fence.root.path, some fence⟩

/-- The path of the file that a definition means, before the fence is asked. A fenced
workspace spells out the current directory, because the fence would look up the file from
its root. If that directory was removed, the path stays as it is written. -/
def lookupPath (w : Workspace) (t : FileTree) (d : Definition) : Path :=
  if d.fromWorkspace then w.root.join ⟨d.file⟩
  else
    match w.fence, t.currentPath? with
    | some _, some current => current.join ⟨d.file⟩
    | _, _ => ⟨d.file⟩

/-- The current directory has to be spelled out, and it was removed. -/
def isAdrift (w : Workspace) (t : FileTree) (d : Definition) : Bool :=
  w.fence.isSome && !d.fromWorkspace && !(Path.mk d.file).isAbsolute && t.currentPath?.isNone

/-- The path of the file that a definition means. Behind a fence it is the path of the
location itself. -/
def target (w : Workspace) (t : FileTree) (d : Definition) : Except PatchFailure Path :=
  let path := w.lookupPath t d
  if w.isAdrift t d then .error (.unreadableTarget path .notFound)
  else
    match w.fence with
    | none => .ok path
    | some fence =>
      match fence.locate t path with
      | .ok found => .ok found.path
      | .error failure => .error (.fenced failure)

end Workspace

/-! ## Reading -/

/-- A block in a file just read. -/
structure FoundBlock where
  file : Path
  content : Bytes
  span : Span
  deriving DecidableEq, Repr

def FoundBlock.block (b : FoundBlock) : Bytes := b.span.block b.content

namespace Definition

/-- Reads the file of a definition and finds its block. The definition is not judged. -/
def readBlock (d : Definition) (t : FileTree) (w : Workspace) :
    Except PatchFailure FoundBlock :=
  match w.target t d with
  | .error failure => .error failure
  | .ok file =>
    match t.readText file with
    | .error refusal => .error (.unreadableTarget file refusal)
    | .ok content =>
      match d.findBlock content with
      | .error failure => .error (.noBlock file failure)
      | .ok span => .ok ⟨file, content, span⟩

/-- The block of a definition. The replacement does not matter. -/
def foundBlock (d : Definition) (t : FileTree) (w : Workspace) :
    Except PatchFailure FoundBlock :=
  match d.checkTarget with
  | .error faults => .error (.invalid faults)
  | .ok () => d.readBlock t w

/-- The path of a replacement file: seen from the directory of the definition, where it
came from a file. -/
def replacementPath (d : Definition) (file : String) : Path :=
  match d.origin with
  | some origin => origin.join ⟨file⟩
  | none => ⟨file⟩

/-- The fresh block of a definition. -/
def freshBlock (d : Definition) (t : FileTree) : Except PatchFailure Bytes :=
  match d.check with
  | .error faults => .error (.invalid faults)
  | .ok () =>
    match d.replacement.source? with
    | some (.text text) => .ok (Utf8.bytes text)
    | some (.file file) =>
      match t.readText (d.replacementPath file) with
      | .ok content => .ok content
      | .error refusal => .error (.unreadableReplacement (d.replacementPath file) refusal)
    | none => .ok []

end Definition

/-! ## Plans -/

/-- A patch before it is made: the block as it was found and the fresh block. -/
structure Plan where
  found : FoundBlock
  fresh : Bytes
  deriving DecidableEq, Repr

namespace Plan

def file (p : Plan) : Path := p.found.file

def span (p : Plan) : Span := p.found.span

/-- The content that the plan was made from. -/
def content (p : Plan) : Bytes := p.found.content

def block (p : Plan) : Bytes := p.found.block

/-- The block already is the fresh block. -/
def isDone (p : Plan) : Bool := p.block = p.fresh

/-- The content with the fresh block in place. -/
def patched (p : Plan) : Bytes :=
  if p.isDone then p.content else p.span.replace p.content p.fresh

/-- The edit that carries the plan out. It expects the block that was found. -/
def edit (p : Plan) : Edit := .after p.file p.span.start p.span.stop p.fresh p.block

end Plan

/-- Plans the patch of a definition. The replacement is read before the file. -/
def Definition.plan (d : Definition) (t : FileTree) (w : Workspace) :
    Except PatchFailure Plan :=
  match d.freshBlock t with
  | .error failure => .error failure
  | .ok fresh => (d.readBlock t w).map fun found => ⟨found, fresh⟩

/-! ## Outcomes -/

/-- What became of a patch, or would become of it. -/
inductive PatchOutcome where
  | applied (file : Path) (bytes : Nat)
  | alreadyApplied (file : Path)
  | wouldApply (file : Path)
  deriving DecidableEq, Repr

namespace PatchOutcome

def file : PatchOutcome → Path
  | .applied file _ => file
  | .alreadyApplied file => file
  | .wouldApply file => file

def message : PatchOutcome → String
  | .applied file bytes => "Applied patch to " ++ file.text ++ s!" ({bytes} bytes)"
  | .alreadyApplied file => "Already applied to " ++ file.text
  | .wouldApply file => "Would apply to " ++ file.text

end PatchOutcome

/-- Tells what a patch would do. -/
def Definition.preview (d : Definition) (t : FileTree) (w : Workspace) :
    Except PatchFailure PatchOutcome :=
  (d.plan t w).map fun p => if p.isDone then .alreadyApplied p.file else .wouldApply p.file

/-- Carries a plan out. -/
def Plan.carryOut (p : Plan) (t : FileTree) : Except PatchFailure (PatchOutcome × FileTree) :=
  if p.isDone then .ok (.alreadyApplied p.file, t)
  else
    match p.edit.run t with
    | .error failure => .error (.notEdited failure)
    | .ok (.written file bytes, tree) => .ok (.applied file bytes, tree)
    | .ok (.alreadyThere file, tree) => .ok (.alreadyApplied file, tree)

/-- Plans a patch and carries it out. -/
def Definition.patch (d : Definition) (t : FileTree) (w : Workspace) :
    Except PatchFailure (PatchOutcome × FileTree) :=
  match d.plan t w with
  | .error failure => .error failure
  | .ok p => p.carryOut t

end AnchoredBlocks
