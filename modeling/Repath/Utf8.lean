/-
UTF-8. Bytes are cut into pieces from the left: a piece is the encoding of one scalar, or a
malformed piece, which is the longest start of an encoding found there and at least one byte long.
The strict reading refuses the first malformed piece and names its offset; the lossy reading puts
the replacement character in place of each.
-/
import Repath.Text

namespace Repath

abbrev Bytes := List UInt8

/-- The scalar U+FFFD, which stands for a malformed piece. -/
def replacementChar : Char := '\uFFFD'

namespace Utf8

/-- The encoding of a text. -/
def encode (t : Text) : Bytes :=
  t.flatMap String.utf8EncodeChar

/-- The number of bytes of the encoding of a text. -/
def size (t : Text) : Nat :=
  t.foldl (fun n c => n + c.utf8Size) 0

/-- A piece of a byte sequence. -/
inductive Piece where
  | scalar (c : Char)
  | malformed (bytes : Bytes)
deriving DecidableEq, Repr

/-- The bytes a piece stands for. -/
def Piece.bytes : Piece → Bytes
  | .scalar c => String.utf8EncodeChar c
  | .malformed bytes => bytes

/-- The number of bytes a piece stands for. -/
def Piece.size : Piece → Nat
  | .scalar c => c.utf8Size
  | .malformed bytes => bytes.length

/-- The scalar of a well-formed piece. -/
def Piece.scalar? : Piece → Option Char
  | .scalar c => some c
  | .malformed _ => none

/-- What the lossy reading makes of a piece. -/
def Piece.lossy : Piece → Char
  | .scalar c => c
  | .malformed _ => replacementChar

/-- The bytes that may follow the second byte of an encoding. -/
def isTail (b : UInt8) : Bool :=
  0x80 ≤ b && b ≤ 0xBF

/-- The second bytes a first byte admits, where an encoding of several bytes may start with it.
The narrow ranges keep out overlong forms, surrogates and values past U+10FFFF. -/
def secondRange? (b : UInt8) : Option (UInt8 × UInt8) :=
  if b < 0xC2 then none
  else if b == 0xE0 then some (0xA0, 0xBF)
  else if b == 0xED then some (0x80, 0x9F)
  else if b == 0xF0 then some (0x90, 0xBF)
  else if b == 0xF4 then some (0x80, 0x8F)
  else if b < 0xF4 then some (0x80, 0xBF)
  else none

/-- The low six bits, those a byte after the first carries. -/
def tailBits (b : UInt8) : Nat :=
  b.toNat % 64

/-- The piece at the start of `b :: rest`. -/
def first (b : UInt8) (rest : Bytes) : Piece :=
  if b < 0x80 then .scalar (Char.ofNat b.toNat) else
  match secondRange? b, rest with
  | none, _ => .malformed [b]
  | some _, [] => .malformed [b]
  | some (low, high), c :: rest =>
    if c < low || high < c then .malformed [b]
    else if b < 0xE0 then .scalar (Char.ofNat (b.toNat % 32 * 64 + tailBits c)) else
    match rest with
    | [] => .malformed [b, c]
    | d :: rest =>
      if !isTail d then .malformed [b, c]
      else if b < 0xF0 then
        .scalar (Char.ofNat ((b.toNat % 16 * 64 + tailBits c) * 64 + tailBits d))
      else
      match rest with
      | [] => .malformed [b, c, d]
      | e :: _ =>
        if !isTail e then .malformed [b, c, d]
        else .scalar (Char.ofNat
          (((b.toNat % 8 * 64 + tailBits c) * 64 + tailBits d) * 64 + tailBits e))

/-- Cuts with `skip` bytes of the current piece still to pass and the finished pieces last first. -/
def piecesFrom : Nat → Bytes → List Piece → List Piece
  | _, [], done => done.reverse
  | skip + 1, _ :: rest, done => piecesFrom skip rest done
  | 0, b :: rest, done =>
    let piece := first b rest
    piecesFrom (piece.size - 1) rest (piece :: done)

/-- The pieces of a byte sequence, from the left. -/
def pieces (bytes : Bytes) : List Piece :=
  piecesFrom 0 bytes []

/-- The text with a replacement character for every malformed piece. -/
def decodeLossy (bytes : Bytes) : Text :=
  (pieces bytes).map Piece.lossy

/-- The scalars of the pieces, or the offset of the first malformed one; `offset` is that of the
first piece, and `done` the scalars before it, last first. -/
def scalarsFrom : Nat → List Piece → Text → Except Nat Text
  | _, [], done => .ok done.reverse
  | offset, .malformed _ :: _, _ => .error offset
  | offset, .scalar c :: rest, done => scalarsFrom (offset + c.utf8Size) rest (c :: done)

/-- The text of well-formed bytes; of any others the offset of the first malformed piece, which is
the length of their longest well-formed start. -/
def decode (bytes : Bytes) : Except Nat Text :=
  scalarsFrom 0 (pieces bytes) []

end Utf8

end Repath
