-- The hash of a long block: XXH3 with 64 bits, the seed 0 and the default
-- secret. A block is read in words, least byte first.
import AnchoredBlocks.ByteText

namespace AnchoredBlocks.BlockHash

/-! ## Constants -/

def primeA32 : UInt64 := 0x9E3779B1
def primeB32 : UInt64 := 0x85EBCA77
def primeC32 : UInt64 := 0xC2B2AE3D
def primeA : UInt64 := 0x9E3779B185EBCA87
def primeB : UInt64 := 0xC2B2AE3D27D4EB4F
def primeC : UInt64 := 0x165667B19E3779F9
def primeD : UInt64 := 0x85EBCA77C2B2AE63
def primeE : UInt64 := 0x27D4EB2F165667C5
def primeMixA : UInt64 := 0x165667919E3779F9
def primeMixB : UInt64 := 0x9FB21C651E98DF25

/-- The default secret. -/
def secret : Array UInt8 := #[
  0xb8, 0xfe, 0x6c, 0x39, 0x23, 0xa4, 0x4b, 0xbe, 0x7c, 0x01, 0x81, 0x2c, 0xf7, 0x21, 0xad, 0x1c,
  0xde, 0xd4, 0x6d, 0xe9, 0x83, 0x90, 0x97, 0xdb, 0x72, 0x40, 0xa4, 0xa4, 0xb7, 0xb3, 0x67, 0x1f,
  0xcb, 0x79, 0xe6, 0x4e, 0xcc, 0xc0, 0xe5, 0x78, 0x82, 0x5a, 0xd0, 0x7d, 0xcc, 0xff, 0x72, 0x21,
  0xb8, 0x08, 0x46, 0x74, 0xf7, 0x43, 0x24, 0x8e, 0xe0, 0x35, 0x90, 0xe6, 0x81, 0x3a, 0x26, 0x4c,
  0x3c, 0x28, 0x52, 0xbb, 0x91, 0xc3, 0x00, 0xcb, 0x88, 0xd0, 0x65, 0x8b, 0x1b, 0x53, 0x2e, 0xa3,
  0x71, 0x64, 0x48, 0x97, 0xa2, 0x0d, 0xf9, 0x4e, 0x38, 0x19, 0xef, 0x46, 0xa9, 0xde, 0xac, 0xd8,
  0xa8, 0xfa, 0x76, 0x3f, 0xe3, 0x9c, 0x34, 0x3f, 0xf9, 0xdc, 0xbb, 0xc7, 0xc7, 0x0b, 0x4f, 0x1d,
  0x8a, 0x51, 0xe0, 0x4b, 0xcd, 0xb4, 0x59, 0x31, 0xc8, 0x9f, 0x7e, 0xc9, 0xd9, 0x78, 0x73, 0x64,
  0xea, 0xc5, 0xac, 0x83, 0x34, 0xd3, 0xeb, 0xc3, 0xc5, 0x81, 0xa0, 0xff, 0xfa, 0x13, 0x63, 0xeb,
  0x17, 0x0d, 0xdd, 0x51, 0xb7, 0xf0, 0xda, 0x49, 0xd3, 0x16, 0x55, 0x26, 0x29, 0xd4, 0x68, 0x9e,
  0x2b, 0x16, 0xbe, 0x58, 0x7d, 0x47, 0xa1, 0xfc, 0x8f, 0xf8, 0xb8, 0xd1, 0x7a, 0xd0, 0x31, 0xce,
  0x45, 0xcb, 0x3a, 0x8f, 0x95, 0x16, 0x04, 0x28, 0xaf, 0xd7, 0xfb, 0xca, 0xbb, 0x4b, 0x40, 0x7e]

/-! ## Words -/

/-- A byte of the data, 0 past its end. -/
def byteAt (data : Array UInt8) (i : Nat) : UInt64 := (data.getD i 0).toUInt64

/-- The number of `count` bytes from `i`, least byte first. -/
def wordAt (data : Array UInt8) (i count : Nat) : UInt64 :=
  (List.range count).foldr (fun k n => n * 256 + byteAt data (i + k)) 0

def word32 (data : Array UInt8) (i : Nat) : UInt64 := wordAt data i 4

def word64 (data : Array UInt8) (i : Nat) : UInt64 := wordAt data i 8

def rotate (x : UInt64) (bits : UInt64) : UInt64 := (x <<< bits) ||| (x >>> (64 - bits))

/-- The bytes of a word, last first. -/
def reverseBytes (x : UInt64) : UInt64 :=
  (List.range 8).foldl (fun (n : UInt64) (k : Nat) => n * 256 + (x >>> (8 * k.toUInt64)) % 256) 0

/-- Both halves of the full product, folded into one word. -/
def foldedProduct (x y : UInt64) : UInt64 :=
  let p := x.toNat * y.toNat
  p.toUInt64 ^^^ (p / UInt64.size).toUInt64

/-! ## Mixing -/

def avalanche (x : UInt64) : UInt64 :=
  let x := (x ^^^ (x >>> 37)) * primeMixA
  x ^^^ (x >>> 32)

def strongAvalanche (x : UInt64) : UInt64 :=
  let x := (x ^^^ (x >>> 33)) * primeB
  let x := (x ^^^ (x >>> 29)) * primeC
  x ^^^ (x >>> 32)

/-- Sixteen bytes of the data against sixteen bytes of the secret. -/
def mixPair (data : Array UInt8) (i key : Nat) : UInt64 :=
  foldedProduct (word64 data i ^^^ word64 secret key)
    (word64 data (i + 8) ^^^ word64 secret (key + 8))

/-! ## Short data -/

def hashUpTo3 (data : Array UInt8) : UInt64 :=
  let n := data.size
  let first := byteAt data 0
  let middle := byteAt data (n / 2)
  let last := byteAt data (n - 1)
  let joined := (first <<< 16) ||| (middle <<< 24) ||| last ||| (n.toUInt64 <<< 8)
  strongAvalanche (joined ^^^ (word32 secret 0 ^^^ word32 secret 4))

def hashUpTo8 (data : Array UInt8) : UInt64 :=
  let n := data.size
  let joined := word32 data (n - 4) + (word32 data 0 <<< 32)
  let x := joined ^^^ (word64 secret 8 ^^^ word64 secret 16)
  let x := (x ^^^ rotate x 49 ^^^ rotate x 24) * primeMixB
  let x := (x ^^^ ((x >>> 35) + n.toUInt64)) * primeMixB
  x ^^^ (x >>> 28)

def hashUpTo16 (data : Array UInt8) : UInt64 :=
  let n := data.size
  let low := word64 data 0 ^^^ (word64 secret 24 ^^^ word64 secret 32)
  let high := word64 data (n - 8) ^^^ (word64 secret 40 ^^^ word64 secret 48)
  avalanche (n.toUInt64 + reverseBytes low + high + foldedProduct low high)

/-- Pairs from both ends toward the middle. -/
def hashUpTo128 (data : Array UInt8) : UInt64 :=
  let n := data.size
  let pairs := (n - 1) / 32 + 1
  avalanche <| (List.range pairs).foldl
    (fun sum k => sum + mixPair data (16 * k) (32 * k) +
      mixPair data (n - 16 * (k + 1)) (32 * k + 16))
    (n.toUInt64 * primeA)

/-- Pairs one after another. After the eighth one the secret is read with a shift. -/
def hashUpTo240 (data : Array UInt8) : UInt64 :=
  let n := data.size
  let early := (List.range 8).foldl (fun sum k => sum + mixPair data (16 * k) (16 * k))
    (n.toUInt64 * primeA)
  let late := (List.range (n / 16 - 8)).foldl
    (fun sum k => sum + mixPair data (16 * (k + 8)) (16 * k + 3)) (avalanche early)
  avalanche (late + mixPair data (n - 16) 119)

/-! ## Long data -/

/-- Eight sums that the stripes go into. -/
abbrev Lanes := List UInt64

def freshLanes : Lanes :=
  [primeC32, primeA, primeB, primeC, primeD, primeB32, primeE, primeA32]

/-- The value and the product of one lane of a stripe. -/
def laneParts (data : Array UInt8) (i key lane : Nat) : UInt64 × UInt64 :=
  let value := word64 data (i + 8 * lane)
  let keyed := value ^^^ word64 secret (key + 8 * lane)
  (value, (keyed % 0x100000000) * (keyed >>> 32))

/-- Sixty-four bytes go into the lanes. The value of a lane goes to its neighbour. -/
def addStripe (data : Array UInt8) (lanes : Lanes) (i key : Nat) : Lanes :=
  lanes.zipIdx.map fun (sum, lane) =>
    let neighbour := if lane % 2 = 0 then lane + 1 else lane - 1
    sum + (laneParts data i key lane).2 + (laneParts data i key neighbour).1

def addStripes (data : Array UInt8) (lanes : Lanes) (i count : Nat) : Lanes :=
  (List.range count).foldl (fun ls k => addStripe data ls (i + 64 * k) (8 * k)) lanes

def scramble (lanes : Lanes) : Lanes :=
  lanes.zipIdx.map fun (sum, lane) =>
    ((sum ^^^ (sum >>> 47)) ^^^ word64 secret (128 + 8 * lane)) * primeA32

/-- The lanes in pairs against the secret from `key`, added up. -/
def mergeLanes (sum : UInt64) (key : Nat) : Lanes → UInt64
  | x :: y :: rest =>
    mergeLanes (sum + foldedProduct (x ^^^ word64 secret key) (y ^^^ word64 secret (key + 8)))
      (key + 16) rest
  | _ => sum

/-- Blocks of sixteen stripes, the stripes that are left, and the last stripe. -/
def hashLong (data : Array UInt8) : UInt64 :=
  let n := data.size
  let full := (n - 1) / 1024
  let lanes := (List.range full).foldl
    (fun ls k => scramble (addStripes data ls (1024 * k) 16)) freshLanes
  let lanes := addStripes data lanes (1024 * full) ((n - 1 - 1024 * full) / 64)
  let lanes := addStripe data lanes (n - 64) 121
  avalanche (mergeLanes (n.toUInt64 * primeA) 11 lanes)

end AnchoredBlocks.BlockHash

namespace AnchoredBlocks

open BlockHash in
/-- The hash of a text. Each range of lengths has its own way of mixing. -/
def blockHash (text : Bytes) : UInt64 :=
  let data := text.toArray
  let n := data.size
  if n = 0 then strongAvalanche (word64 secret 56 ^^^ word64 secret 64)
  else if n ≤ 3 then hashUpTo3 data
  else if n ≤ 8 then hashUpTo8 data
  else if n ≤ 16 then hashUpTo16 data
  else if n ≤ 128 then hashUpTo128 data
  else if n ≤ 240 then hashUpTo240 data
  else hashLong data

end AnchoredBlocks
