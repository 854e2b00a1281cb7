-- Where a block stands. An anchor inside the block pins it: the block begins
-- at the nearest start marker wholly before the anchor and ends with the
-- nearest end marker after it.
import AnchoredBlocks.QuotedText
import AnchoredBlocks.Utf8

namespace AnchoredBlocks

/-! ## Markers and spans -/

/-- The three texts that pin one block. -/
structure Markers where
  anchor : String := ""
  start : String := ""
  stop : String := ""
  deriving DecidableEq, Repr, Inhabited

/-- A block by its offsets: from `start` up to `stop`, around the anchor at `anchor`. -/
structure Span where
  start : Nat
  stop : Nat
  anchor : Nat
  deriving DecidableEq, Repr, Inhabited

namespace Span

/-- The number of bytes of the block. -/
def length (s : Span) : Nat := s.stop - s.start

/-- Both ends of the span stand between two characters of the text. -/
def Fits (s : Span) (text : Bytes) : Prop :=
  s.start ≤ s.stop ∧ Utf8.isBoundary text s.start = true ∧ Utf8.isBoundary text s.stop = true

instance (s : Span) (text : Bytes) : Decidable (s.Fits text) := by
  unfold Fits; infer_instance

/-- The block within its text. -/
def block (s : Span) (text : Bytes) : Bytes := slice text s.start s.stop

/-- The text with another block in place of this one. -/
def replace (s : Span) (text fresh : Bytes) : Bytes := splice text s.start s.stop fresh

/-- The line of the start marker. -/
def firstLine (s : Span) (text : Bytes) : Nat := lineOf text s.start

/-- The line of the last byte of the end marker. -/
def lastLine (s : Span) (text : Bytes) : Nat := lineOf text (s.stop - 1)

end Span

/-! ## Why a block is not found -/

/-- Which of the three texts. -/
inductive Pattern where
  | anchor
  | startMarker
  | endMarker
  deriving DecidableEq, Repr

def Pattern.name : Pattern → String
  | .anchor => "anchor"
  | .startMarker => "start marker"
  | .endMarker => "end marker"

/-- Why no block was found. The marker faults give the line of the anchor. -/
inductive SearchFailure where
  | noAnchor (anchor : String)
  | noStart (marker : String) (line : Nat)
  | noEnd (marker : String) (line : Nat)
  | manyAnchors (anchor : String) (count : Nat)
  | emptyPattern (pattern : Pattern)
  deriving DecidableEq, Repr

def SearchFailure.message : SearchFailure → String
  | .noAnchor anchor => "anchor " ++ quoted anchor ++ " not found"
  | .noStart marker line =>
    "no start marker " ++ quoted marker ++ s!" precedes the anchor on line {line}"
  | .noEnd marker line =>
    "no end marker " ++ quoted marker ++ s!" follows the anchor on line {line}"
  | .manyAnchors anchor count =>
    "anchor " ++ quoted anchor ++ s!" occurs {count} times, expected exactly 1"
  | .emptyPattern pattern => pattern.name ++ " must not be empty"

/-! ## The search -/

namespace Markers

/-- The first of the three texts that is empty. -/
def emptyPattern? (m : Markers) : Option Pattern :=
  if m.anchor.isEmpty then some .anchor
  else if m.start.isEmpty then some .startMarker
  else if m.stop.isEmpty then some .endMarker
  else none

/-- The place of the anchor: the first one in the text. -/
def anchorAt? (m : Markers) (text : Bytes) : Option Nat := first? (Utf8.bytes m.anchor) text

/-- The place of the start marker: the last one that ends before the anchor begins. -/
def startAt? (m : Markers) (text : Bytes) (anchor : Nat) : Option Nat :=
  last? (Utf8.bytes m.start) (text.take anchor)

/-- The place of the end marker: the first one that begins after the anchor ends. -/
def stopAt? (m : Markers) (text : Bytes) (anchor : Nat) : Option Nat :=
  let after := anchor + (Utf8.bytes m.anchor).length
  (first? (Utf8.bytes m.stop) (text.drop after)).map (after + ·)

/-- The block around the first anchor. -/
def find (m : Markers) (text : Bytes) : Except SearchFailure Span :=
  match m.emptyPattern? with
  | some pattern => .error (.emptyPattern pattern)
  | none =>
    match m.anchorAt? text with
    | none => .error (.noAnchor m.anchor)
    | some anchor =>
      match m.startAt? text anchor with
      | none => .error (.noStart m.start (lineOf text anchor))
      | some start =>
        match m.stopAt? text anchor with
        | none => .error (.noEnd m.stop (lineOf text anchor))
        | some stop => .ok ⟨start, stop + (Utf8.bytes m.stop).length, anchor⟩

/-- The block around the only anchor. More than one anchor is a fault, whatever the
markers are. -/
def findOnly (m : Markers) (text : Bytes) : Except SearchFailure Span :=
  match m.emptyPattern? with
  | some pattern => .error (.emptyPattern pattern)
  | none =>
    let count := occurrences (Utf8.bytes m.anchor) text
    if count > 1 then .error (.manyAnchors m.anchor count) else m.find text

/-- The bytes of the block, markers included. -/
def extract (m : Markers) (text : Bytes) : Except SearchFailure Bytes :=
  (m.find text).map fun span => span.block text

/-- The text with `fresh` in place of the block. -/
def replace (m : Markers) (text fresh : Bytes) : Except SearchFailure Bytes :=
  (m.find text).map fun span => span.replace text fresh

end Markers

end AnchoredBlocks
