-- A diff as it is shown: every line of both texts once, with what became of
-- it. Within one run of changes the removed lines come before the added ones.
import AnchoredBlocks.LineDiff.Settle

namespace AnchoredBlocks.LineDiff

/-! ## Lines with their ends -/

/-- The lines of a text with their ends. A newline, a carriage return, or both together end
a line. `pending` holds the line read so far, last character first. -/
def splitFrom (pending : List Char) : List Char → List (List Char)
  | [] => if pending.isEmpty then [] else [pending.reverse]
  | '\r' :: '\n' :: rest => ('\n' :: '\r' :: pending).reverse :: splitFrom [] rest
  | c :: rest =>
    if c = '\n' || c = '\r' then (c :: pending).reverse :: splitFrom [] rest
    else splitFrom (c :: pending) rest

/-- The lines of a text with their ends. -/
def splitLines (cs : List Char) : List (List Char) := splitFrom [] cs

/-- A line has its end. -/
def isEnded (line : List Char) : Bool :=
  match line.getLast? with
  | some c => c = '\n' || c = '\r'
  | none => false

/-! ## What became of each line -/

/-- What became of a line between the two texts. -/
inductive Fate where
  | kept
  | removed
  | added
  deriving DecidableEq, Repr

/-- The lines of a script, removed lines before added ones within a run of changes.
`removed` and `added` hold the lines of the run so far. -/
def tell {α : Type} (removed added : List α) : Script α → List (Fate × α)
  | [] => removed.map (Fate.removed, ·) ++ added.map (Fate.added, ·)
  | .remove lines :: rest => tell (removed ++ lines) added rest
  | .add lines :: rest => tell removed (added ++ lines) rest
  | .keep lines :: rest =>
    removed.map (Fate.removed, ·) ++ added.map (Fate.added, ·) ++
      lines.map (Fate.kept, ·) ++ tell [] [] rest

/-- The lines of two texts with what became of them. -/
def lineFates (old new : List Char) : List (Fate × List Char) :=
  tell [] [] (settle (script (splitLines old) (splitLines new)))

end AnchoredBlocks.LineDiff
