-- Texts as bytes. Every offset of a block is an offset into bytes, so the
-- searches, the line numbers and the splice are all said of a list of bytes.

namespace AnchoredBlocks

/-- A text as its bytes. -/
abbrev Bytes := List UInt8

/-- The byte that ends a line. -/
def newline : UInt8 := 10

/-! ## Where a text stands inside another -/

/-- `needle` stands in `text` at the offset `i`. -/
def OccursAt (needle text : Bytes) (i : Nat) : Prop :=
  i ≤ text.length ∧ needle <+: text.drop i

instance (needle text : Bytes) (i : Nat) : Decidable (OccursAt needle text i) := by
  unfold OccursAt; infer_instance

/-- The first place of `needle`, counted from `i` at the head of the text. -/
def firstFrom (needle : Bytes) (i : Nat) : Bytes → Option Nat
  | [] => if needle.isEmpty then some i else none
  | b :: rest =>
    if needle.isPrefixOf (b :: rest) then some i else firstFrom needle (i + 1) rest

/-- The last place of `needle`, counted from `i` at the head of the text, or `found` when
it stands nowhere. -/
def lastFrom (needle : Bytes) (i : Nat) (found : Option Nat) : Bytes → Option Nat
  | [] => if needle.isEmpty then some i else found
  | b :: rest =>
    lastFrom needle (i + 1) (if needle.isPrefixOf (b :: rest) then some i else found) rest

/-- One more for each offset at which `needle` stands. Places that overlap all count. -/
def countFrom (needle : Bytes) (n : Nat) : Bytes → Nat
  | [] => if needle.isEmpty then n + 1 else n
  | b :: rest =>
    countFrom needle (if needle.isPrefixOf (b :: rest) then n + 1 else n) rest

/-- The least offset of `needle`. -/
def first? (needle text : Bytes) : Option Nat := firstFrom needle 0 text

/-- The greatest offset of `needle`. -/
def last? (needle text : Bytes) : Option Nat := lastFrom needle 0 none text

/-- The number of offsets at which `needle` stands. -/
def occurrences (needle text : Bytes) : Nat := countFrom needle 0 text

/-! ## Lines -/

/-- How many lines end in the text. -/
def newlines (text : Bytes) : Nat := text.count newline

/-- The line of an offset, from 1. An offset past the end belongs to the last line. -/
def lineOf (text : Bytes) (offset : Nat) : Nat := newlines (text.take offset) + 1

/-! ## The splice -/

/-- The text with `fresh` in place of what stands from `start` up to `stop`. -/
def splice (text : Bytes) (start stop : Nat) (fresh : Bytes) : Bytes :=
  text.take start ++ fresh ++ text.drop stop

/-- What stands from `start` up to `stop`. -/
def slice (text : Bytes) (start stop : Nat) : Bytes := (text.take stop).drop start

theorem length_splice {text : Bytes} {start stop : Nat} (fresh : Bytes)
    (h : start ≤ stop) (hs : stop ≤ text.length) :
    (splice text start stop fresh).length + (stop - start) = text.length + fresh.length := by
  simp only [splice, List.length_append, List.length_take, List.length_drop]
  omega

theorem splice_slice {text : Bytes} {start stop : Nat} (h : start ≤ stop) :
    splice text start stop (slice text start stop) = text := by
  have hs : (text.take stop).take start = text.take start := by
    rw [List.take_take, Nat.min_eq_left h]
  unfold splice slice
  rw [← hs, List.take_append_drop, List.take_append_drop]

theorem length_slice {text : Bytes} {start stop : Nat} (h : stop ≤ text.length) :
    (slice text start stop).length = stop - start := by
  rw [slice, List.length_drop, List.length_take_of_le h]

theorem slice_zero_length (text : Bytes) : slice text 0 text.length = text := by
  rw [slice, List.take_length, List.drop_zero]

theorem slice_between (front middle back : Bytes) :
    slice (front ++ middle ++ back) front.length (front.length + middle.length) = middle := by
  rw [slice, ← List.length_append, List.take_left, List.drop_left]

end AnchoredBlocks
