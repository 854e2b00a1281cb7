-- Edits that look before they write. An edit replaces a span of a file, and
-- only if the span still holds what was expected there, or already holds the
-- fresh text. So a file that changed in the meantime is never overwritten.
import AnchoredBlocks.BlockHash
import AnchoredBlocks.FileTree

namespace AnchoredBlocks

/-! ## What is expected -/

/-- What a span held when it was last seen: its text, or the hash of its text. -/
inductive Expectation where
  | text (expected : Bytes)
  | hash (value : UInt64)
  deriving DecidableEq, Repr

namespace Expectation

/-- A longer text is remembered by its hash. -/
def textLimit : Nat := 1024

/-- The expectation of a text that was seen. -/
def of (seen : Bytes) : Expectation :=
  if seen.length > textLimit then .hash (blockHash seen) else .text seen

/-- The text is what was expected. -/
def Holds : Expectation → Bytes → Prop
  | .text expected, found => found = expected
  | .hash value, found => blockHash found = value

instance (e : Expectation) (found : Bytes) : Decidable (e.Holds found) := by
  cases e <;> unfold Holds <;> infer_instance

end Expectation

/-! ## Edits -/

/-- A fresh text for the span from `start` up to `stop` of a file. -/
structure Edit where
  file : Path
  start : Nat
  stop : Nat
  fresh : Bytes
  expected : Expectation
  deriving DecidableEq, Repr

/-- Why an edit was not made. -/
inductive EditFailure where
  | changed (file : Path) (start stop : Nat) (found : Bytes)
  | badSpan (start stop length : Nat)
  | unreadable (refusal : Refusal)
  | notUtf8 (fault : Utf8.Fault)
  deriving DecidableEq, Repr

def EditFailure.message : EditFailure → String
  | .changed file start _ _ => "block at " ++ file.text ++ s!":{start} changed since it was located"
  | .badSpan start stop length =>
    s!"Invalid byte range: [{start}, {stop}) in file of length {length}"
  | .unreadable refusal => "File I/O error: " ++ refusal.message
  | .notUtf8 fault => "UTF-8 validation error: " ++ fault.message

/-- What an edit did. -/
inductive EditOutcome where
  | written (file : Path) (bytes : Nat)
  | alreadyThere (file : Path)
  deriving DecidableEq, Repr

namespace Edit

/-- An edit of a span that held `seen`. -/
def after (file : Path) (start stop : Nat) (fresh seen : Bytes) : Edit :=
  ⟨file, start, stop, fresh, .of seen⟩

/-- What the span of a content holds, if the edit may go on there. The whole content has
to be UTF-8, and the span may not cut a character. -/
def found (e : Edit) (content : Bytes) : Except EditFailure Bytes :=
  let bad := EditFailure.badSpan e.start e.stop content.length
  if e.start > e.stop ∨ e.stop > content.length then .error bad
  else
    match Utf8.decode content with
    | .error fault => .error (.notUtf8 fault)
    | .ok _ =>
      if !Utf8.isBoundary content e.start || !Utf8.isBoundary content e.stop then .error bad
      else
        let text := slice content e.start e.stop
        if text = e.fresh ∨ e.expected.Holds text then .ok text
        else .error (.changed e.file e.start e.stop text)

/-- Makes the edit. Nothing is written when the span already holds the fresh text. -/
def run (e : Edit) (t : FileTree) : Except EditFailure (EditOutcome × FileTree) :=
  match t.read e.file with
  | .error refusal => .error (.unreadable refusal)
  | .ok content =>
    match e.found content with
    | .error failure => .error failure
    | .ok text =>
      if text = e.fresh then .ok (.alreadyThere e.file, t)
      else
        match t.replaceFile e.file (splice content e.start e.stop e.fresh) with
        | .error refusal => .error (.unreadable refusal)
        | .ok tree => .ok (.written e.file e.fresh.length, tree)

end Edit

end AnchoredBlocks
