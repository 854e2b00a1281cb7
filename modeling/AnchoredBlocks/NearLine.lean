-- The line that is most like a missing anchor. It helps to see how the text
-- has changed since the anchor was written down.
import AnchoredBlocks.Similarity
import AnchoredBlocks.TextLines
import AnchoredBlocks.Utf8
import AnchoredBlocks.WhiteSpace

namespace AnchoredBlocks

/-- A line without the blanks at its ends. -/
def trimmedLine (line : Bytes) : List Char :=
  match Utf8.decode line with
  | .ok cs => trimChars cs
  | .error _ => []

/-! ## The best line under any score -/

/-- A line with its number and its score. -/
structure ScoredLine (σ : Type) where
  line : Nat
  text : List Char
  score : σ
  deriving Repr

/-- The lines that are not blank and whose score is high enough, with their numbers. -/
def scoredLines {σ : Type} (score : List Char → σ) (enough : σ → Bool) (text : Bytes) :
    List (ScoredLine σ) :=
  ((textLines text).zipIdx 1).filterMap fun (line, n) =>
    let shown := trimmedLine line
    if !shown.isEmpty && enough (score shown) then some ⟨n, shown, score shown⟩ else none

/-- The line with the highest score, the last of them where several are equal. -/
def bestLine {σ : Type} (atMost : σ → σ → Bool) :
    List (ScoredLine σ) → Option (ScoredLine σ)
  | [] => none
  | first :: rest =>
    some (rest.foldl (fun best l => if atMost best.score l.score then l else best) first)

/-! ## The line nearest to an anchor -/

/-- The first line of the anchor that is not blank. -/
def anchorLine? (anchor : String) : Option (List Char) :=
  ((textLines (Utf8.bytes anchor)).map trimmedLine).find? (!·.isEmpty)

/-- The line of the text that is most like the anchor, if one is near enough. -/
def nearLine? (text : Bytes) (anchor : String) : Option (ScoredLine Similarity) :=
  (anchorLine? anchor).bind fun wanted =>
    bestLine Similarity.atMost
      (scoredLines (Similarity.between wanted) (Similarity.near.atMost ·) text)

end AnchoredBlocks
