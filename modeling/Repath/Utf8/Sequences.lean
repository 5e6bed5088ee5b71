/-
The encodings of a range of scalars as sequences of byte ranges: one range for each byte of an
encoding, so that a choice of bytes from them in their order is the encoding of a scalar in the
range, and each such encoding is chosen by one of the sequences. For that the range is cut where
the length of the encoding changes, around the surrogates, and then so that in each piece a byte
after the first takes all its values wherever a byte before it takes more than one.
-/
import Repath.Utf8

namespace Repath.Utf8

/-- A range of bytes for each byte of an encoding. -/
abbrev ByteSequence := List (UInt8 × UInt8)

/-- The scalars of one byte. -/
def oneByteRange : Nat × Nat := (0, 0x7F)

/-- The scalars of two, three and four bytes; those of three lie around the surrogates. -/
def longerRanges : List (Nat × Nat) :=
  [(0x80, 0x7FF), (0x800, 0xD7FF), (0xE000, 0xFFFF), (0x10000, 0x10FFFF)]

/-- The part of a range that is inside another one. -/
def within? (range limits : Nat × Nat) : Option (Nat × Nat) :=
  let low := max range.1 limits.1
  let high := min range.2 limits.2
  if low ≤ high then some (low, high) else none

/-- Cuts a range that reaches over several blocks of a size into the rest of its first block, whole
blocks, and the start of its last one. -/
def cutAtBlocks (size : Nat) (range : Nat × Nat) : List (Nat × Nat) :=
  let (low, high) := range
  if low / size = high / size then [(low, high)] else
  let first := if low % size = 0 then low else (low / size + 1) * size
  let last := if high % size = size - 1 then high + 1 else high / size * size
  (if low < first then [(low, first - 1)] else []) ++
    (if first < last then [(first, last - 1)] else []) ++
    (if last ≤ high then [(last, high)] else [])

/-- The sequences of a range of scalars, in the order of the scalars. -/
def sequences (range : Nat × Nat) : List ByteSequence :=
  let longer := (longerRanges.filterMap (within? range)).flatMap fun piece =>
    (cutAtBlocks 64 piece).flatMap fun piece =>
      (cutAtBlocks (64 * 64) piece).flatMap (cutAtBlocks (64 * 64 * 64))
  ((within? range oneByteRange).toList ++ longer).map fun (low, high) =>
    List.zip (String.utf8EncodeChar (Char.ofNat low)) (String.utf8EncodeChar (Char.ofNat high))

end Repath.Utf8
