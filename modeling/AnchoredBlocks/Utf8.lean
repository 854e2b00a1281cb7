-- UTF-8. A text is valid when it is the encoding of some characters. The
-- decoder gives those characters back, or says where the first bad byte is.
import AnchoredBlocks.ByteText

namespace AnchoredBlocks.Utf8

/-! ## Encoding -/

/-- The bytes of characters, one after another. -/
def encode (cs : List Char) : Bytes := cs.flatMap String.utf8EncodeChar

/-- The bytes of a string. -/
def bytes (s : String) : Bytes := encode s.toList

/-- Bytes that are the encoding of some characters. -/
def Valid (text : Bytes) : Prop := ∃ cs, text = encode cs

/-! ## Decoding -/

/-- Why bytes are not UTF-8: how many bytes before the fault are good, and how many bytes
the fault takes. It has no length when the text ends inside a character. -/
structure Fault where
  goodBytes : Nat
  badBytes : Option Nat
  deriving DecidableEq, Repr

def Fault.message (f : Fault) : String :=
  match f.badBytes with
  | some n => s!"invalid utf-8 sequence of {n} bytes from index {f.goodBytes}"
  | none => s!"incomplete utf-8 byte sequence from index {f.goodBytes}"

/-- A byte that goes on with a character. -/
def isContinuation (b : UInt8) : Bool := 0x80 ≤ b && b ≤ 0xBF

/-- The ranges of the bytes that follow a first byte. A byte that begins no character has
no ranges. -/
def tailRanges (b : UInt8) : Option (List (UInt8 × UInt8)) :=
  if b < 0x80 then some []
  else if b < 0xC2 then none
  else if b < 0xE0 then some [(0x80, 0xBF)]
  else if b = 0xE0 then some [(0xA0, 0xBF), (0x80, 0xBF)]
  else if b = 0xED then some [(0x80, 0x9F), (0x80, 0xBF)]
  else if b < 0xF0 then some [(0x80, 0xBF), (0x80, 0xBF)]
  else if b = 0xF0 then some [(0x90, 0xBF), (0x80, 0xBF), (0x80, 0xBF)]
  else if b < 0xF4 then some [(0x80, 0xBF), (0x80, 0xBF), (0x80, 0xBF)]
  else if b = 0xF4 then some [(0x80, 0x8F), (0x80, 0xBF), (0x80, 0xBF)]
  else none

/-- How many bytes lie in the ranges, one after another. -/
def fitting : List (UInt8 × UInt8) → Bytes → Nat
  | (low, high) :: ranges, b :: rest =>
    if low ≤ b && b ≤ high then fitting ranges rest + 1 else 0
  | _, _ => 0

/-- The bits that a first byte gives, when `following` bytes come after it. -/
def leadBits (b : UInt8) (following : Nat) : Nat :=
  match following with
  | 0 => b.toNat
  | 1 => b.toNat % 0x20
  | 2 => b.toNat % 0x10
  | _ => b.toNat % 0x08

/-- The character of a first byte and the bytes that follow it. -/
def charOf (b : UInt8) (following : Bytes) : Char :=
  Char.ofNat (following.foldl (fun n c => n * 64 + c.toNat % 64) (leadBits b following.length))

/-- The first character and what comes after it, or the length of the fault. -/
def step (b : UInt8) (rest : Bytes) : Except (Option Nat) (Char × Bytes) :=
  match tailRanges b with
  | none => .error (some 1)
  | some ranges =>
    let n := fitting ranges rest
    if n = ranges.length then .ok (charOf b (rest.take n), rest.drop n)
    else if n = rest.length then .error none
    else .error (some (n + 1))

theorem step_shorter {b : UInt8} {rest after : Bytes} {c : Char}
    (h : step b rest = .ok (c, after)) : after.length ≤ rest.length := by
  unfold step at h
  split at h
  · simp at h
  · simp only at h
    split at h
    · simp only [Except.ok.injEq, Prod.mk.injEq] at h
      rw [← h.2, List.length_drop]
      omega
    · split at h <;> simp at h

/-- Reads on after `good` bytes whose characters, last first, are `done`. -/
def decodeFrom (good : Nat) (done : List Char) (text : Bytes) : Except Fault (List Char) :=
  match text with
  | [] => .ok done.reverse
  | b :: rest =>
    match _h : step b rest with
    | .error n => .error ⟨good, n⟩
    | .ok (c, after) => decodeFrom (good + c.utf8Size) (c :: done) after
termination_by text.length
decreasing_by
  have := step_shorter _h
  simp only [List.length_cons]
  omega

/-- The characters of a text. -/
def decode (text : Bytes) : Except Fault (List Char) := decodeFrom 0 [] text

/-- A text as a string, empty when it is not UTF-8. -/
def string (text : Bytes) : String :=
  match decode text with
  | .ok cs => String.ofList cs
  | .error _ => ""

/-! ## Boundaries -/

/-- An offset between two characters, or at an end of the text. -/
def isBoundary (text : Bytes) (i : Nat) : Bool :=
  match text[i]? with
  | some b => !isContinuation b
  | none => i == text.length

end AnchoredBlocks.Utf8
