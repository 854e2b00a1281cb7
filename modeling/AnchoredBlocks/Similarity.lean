-- How alike two texts are: one less the share of characters that have to be
-- changed. The share is kept as a fraction, so two shares compare exactly.

namespace AnchoredBlocks

/-! ## Changes between two texts -/

/-- The next row of the table of changes. `row` holds the changes from the part of the
first text read so far to each part of the second, `left` the last new one and `corner`
the old one above it. -/
def nextRow (c : Char) (corner left : Nat) : List Char → List Nat → List Nat
  | d :: ds, up :: row =>
    let here := min (min (up + 1) (left + 1)) (if c = d then corner else corner + 1)
    here :: nextRow c up here ds row
  | _, _ => []

/-- The rows of the table, one for each character of the first text. The first column
counts the characters read. -/
def lastRow (other : List Char) : Nat → List Nat → List Char → Nat × List Nat
  | first, row, [] => (first, row)
  | first, row, c :: cs =>
    lastRow other (first + 1) (nextRow c first (first + 1) other row) cs

/-- The fewest insertions, removals and swaps of one character that turn one text into
the other. -/
def changes (a b : List Char) : Nat :=
  let (first, row) := lastRow b 0 ((List.range b.length).map (· + 1)) a
  row.getLastD first

/-! ## The share -/

/-- A share of `kept` out of `whole`. Nothing out of nothing is all of it. -/
structure Similarity where
  kept : Nat
  whole : Nat
  deriving DecidableEq, Repr

namespace Similarity

/-- How alike two texts are. -/
def between (a b : List Char) : Similarity :=
  let longest := max a.length b.length
  ⟨longest - changes a b, longest⟩

/-- One share is at most another. -/
def atMost (x y : Similarity) : Bool :=
  if x.whole = 0 then y.whole ≤ y.kept
  else if y.whole = 0 then true
  else x.kept * y.whole ≤ y.kept * x.whole

/-- Six tenths: a share from which two texts count as near. -/
def near : Similarity := ⟨6, 10⟩

/-- The share as a number from 0 to 1. -/
def value (x : Similarity) : Float :=
  if x.whole = 0 then 1 else 1 - (x.whole - x.kept).toFloat / x.whole.toFloat

end Similarity

end AnchoredBlocks
