/-
Well-formed UTF-8 is the encoding of the text it reads as, byte for byte (`encode_of_decode`): a
piece that counts as a scalar is exactly the encoding of that scalar (`first_scalar`), because the
ranges of the second byte leave only the shortest forms of scalars. The other way round, every
encoding is cut into the scalars of its text (`pieces_encode`), so it reads as that text
(`decode_eq_ok_iff`), the lenient reading gives the text back too (`decodeLossy_encode`), and no two
texts have the same encoding (`encode_injective`). A byte below 0x80 never is a part of the encoding
of another scalar (`mem_encode_iff`).
-/
import Repath.Utf8
import Mathlib.Tactic.SplitIfs

namespace Repath.Utf8

/-! ## One scalar -/

theorem val_toNat_ofNat {n : Nat} (h : n.isValidChar) : (Char.ofNat n).val.toNat = n := by
  rw [Char.ofNat, dif_pos h]
  rfl

theorem ofNat_of_eq_toNat {n : Nat} {b : UInt8} (h : n = b.toNat) : UInt8.ofNat n = b := by
  rw [h, UInt8.ofNat_toNat]

/-- A byte that an encoding may have after its first. -/
def IsTail (b : UInt8) : Prop :=
  0x80 ≤ b.toNat ∧ b.toNat ≤ 0xBF

theorem isTail_of_not {b : UInt8} (h : ¬ (!isTail b) = true) : IsTail b := by
  simpa [isTail, IsTail, UInt8.le_iff_toNat_le] using h

theorem not_of_isTail {b : UInt8} (h : IsTail b) : ¬ (!isTail b) = true := by
  simpa [isTail, IsTail, UInt8.le_iff_toNat_le] using h

theorem encode_one {b : UInt8} (h : b.toNat < 0x80) :
    String.utf8EncodeChar (Char.ofNat b.toNat) = [b] := by
  simp only [String.utf8EncodeChar, val_toNat_ofNat (show b.toNat.isValidChar by left; omega)]
  rw [if_pos (by omega), UInt8.ofNat_toNat]

theorem encode_two {b c : UInt8} (hlow : 0xC2 ≤ b.toNat) (hhigh : b.toNat < 0xE0) (hc : IsTail c) :
    String.utf8EncodeChar (Char.ofNat (b.toNat % 32 * 64 + tailBits c)) = [b, c] := by
  unfold IsTail at hc
  unfold tailBits
  generalize hn : b.toNat % 32 * 64 + c.toNat % 64 = n
  have hvalid : n.isValidChar := by left; omega
  simp only [String.utf8EncodeChar, val_toNat_ofNat hvalid]
  rw [if_neg (by omega), if_pos (by omega), ofNat_of_eq_toNat (b := b) (by omega),
    ofNat_of_eq_toNat (b := c) (by omega)]

/-- After 0xE0 only large second bytes count, or two bytes would do; after 0xED only small ones, or
the value would be a surrogate. -/
theorem encode_three {b c d : UInt8} (hlow : 0xE0 ≤ b.toNat) (hhigh : b.toNat < 0xF0)
    (hc : IsTail c) (hd : IsTail d) (hlong : b.toNat = 0xE0 → 0xA0 ≤ c.toNat)
    (hsurrogate : b.toNat = 0xED → c.toNat ≤ 0x9F) :
    String.utf8EncodeChar (Char.ofNat ((b.toNat % 16 * 64 + tailBits c) * 64 + tailBits d)) =
      [b, c, d] := by
  unfold IsTail at hc hd
  unfold tailBits
  generalize hn : (b.toNat % 16 * 64 + c.toNat % 64) * 64 + d.toNat % 64 = n
  have hvalid : n.isValidChar := by unfold Nat.isValidChar; omega
  simp only [String.utf8EncodeChar, val_toNat_ofNat hvalid]
  rw [if_neg (by omega), if_neg (by omega), if_pos (by omega),
    ofNat_of_eq_toNat (b := b) (by omega), ofNat_of_eq_toNat (b := c) (by omega),
    ofNat_of_eq_toNat (b := d) (by omega)]

/-- After 0xF0 only large second bytes count, or three bytes would do; after 0xF4 only small ones,
or the value would be past the last scalar. -/
theorem encode_four {b c d e : UInt8} (hlow : 0xF0 ≤ b.toNat) (hhigh : b.toNat ≤ 0xF4)
    (hc : IsTail c) (hd : IsTail d) (he : IsTail e) (hlong : b.toNat = 0xF0 → 0x90 ≤ c.toNat)
    (hlast : b.toNat = 0xF4 → c.toNat ≤ 0x8F) :
    String.utf8EncodeChar (Char.ofNat
        (((b.toNat % 8 * 64 + tailBits c) * 64 + tailBits d) * 64 + tailBits e)) =
      [b, c, d, e] := by
  unfold IsTail at hc hd he
  unfold tailBits
  generalize hn : ((b.toNat % 8 * 64 + c.toNat % 64) * 64 + d.toNat % 64) * 64 + e.toNat % 64 = n
  have hvalid : n.isValidChar := by unfold Nat.isValidChar; omega
  simp only [String.utf8EncodeChar, val_toNat_ofNat hvalid]
  rw [if_neg (by omega), if_neg (by omega), if_neg (by omega),
    ofNat_of_eq_toNat (b := b) (by omega), ofNat_of_eq_toNat (b := c) (by omega),
    ofNat_of_eq_toNat (b := d) (by omega), ofNat_of_eq_toNat (b := e) (by omega)]

/-- A second byte `c` in the range for a first byte `b`. -/
structure Second (b c : UInt8) : Prop where
  low : 0xC2 ≤ b.toNat
  high : b.toNat ≤ 0xF4
  tail : IsTail c
  afterE0 : b.toNat = 0xE0 → 0xA0 ≤ c.toNat
  afterED : b.toNat = 0xED → c.toNat ≤ 0x9F
  afterF0 : b.toNat = 0xF0 → 0x90 ≤ c.toNat
  afterF4 : b.toNat = 0xF4 → c.toNat ≤ 0x8F

theorem secondRange?_spec {b c low high : UInt8} (h : secondRange? b = some (low, high))
    (hc : ¬ (c < low || high < c) = true) : Second b c := by
  unfold secondRange? at h
  simp only [UInt8.lt_iff_toNat_lt, beq_iff_eq, ← UInt8.toNat_inj, Bool.or_eq_true,
    decide_eq_true_eq] at h hc
  split_ifs at h <;> cases h <;> constructor <;> simp [IsTail] at * <;> omega

theorem Second.range {b c : UInt8} (h : Second b c) :
    ∃ low high, secondRange? b = some (low, high) ∧ ¬ (c < low || high < c) = true := by
  obtain ⟨hlow, hhigh, ⟨htail, htop⟩, hE0, hED, hF0, hF4⟩ := h
  unfold secondRange?
  simp only [UInt8.lt_iff_toNat_lt, beq_iff_eq, ← UInt8.toNat_inj, Bool.or_eq_true,
    decide_eq_true_eq]
  -- the two branches without a range are those of bytes that start no encoding of several
  split_ifs
  all_goals first
    | exact ⟨_, _, rfl, by simp at *; omega⟩
    | (simp at *; omega)

/-- A piece that counts as a scalar is the encoding of that scalar. -/
theorem first_scalar {b : UInt8} {rest : Bytes} {s : Char} :
    first b rest = .scalar s → String.utf8EncodeChar s <+: b :: rest := by
  fun_cases first b rest with
  | case1 _ hb =>
    intro h
    obtain rfl := Piece.scalar.inj h
    rw [encode_one (UInt8.lt_iff_toNat_lt.1 hb)]
    exact List.prefix_append [b] rest
  | case5 _ _ _ c rest hrange hc hb =>
    have hsecond := secondRange?_spec hrange hc
    intro h
    obtain rfl := Piece.scalar.inj h
    rw [encode_two hsecond.low (UInt8.lt_iff_toNat_lt.1 hb) hsecond.tail]
    exact List.prefix_append [b, c] rest
  | case8 _ _ _ c hrange hc hlow d rest hd hb =>
    have hsecond := secondRange?_spec hrange hc
    intro h
    obtain rfl := Piece.scalar.inj h
    rw [encode_three (UInt8.le_iff_toNat_le.1 (UInt8.not_lt.1 hlow)) (UInt8.lt_iff_toNat_lt.1 hb)
      hsecond.tail (isTail_of_not hd) hsecond.afterE0 hsecond.afterED]
    exact List.prefix_append [b, c, d] rest
  | case11 _ _ _ c hrange hc _ d hd hlow e rest he =>
    have hsecond := secondRange?_spec hrange hc
    intro h
    obtain rfl := Piece.scalar.inj h
    rw [encode_four (UInt8.le_iff_toNat_le.1 (UInt8.not_lt.1 hlow)) hsecond.high hsecond.tail
      (isTail_of_not hd) (isTail_of_not he) hsecond.afterF0 hsecond.afterF4]
    exact List.prefix_append [b, c, d, e] rest
  | _ => nofun

theorem first_one {b : UInt8} (h : b.toNat < 0x80) (rest : Bytes) :
    first b rest = .scalar (Char.ofNat b.toNat) := by
  unfold first
  rw [if_pos (UInt8.lt_iff_toNat_lt.2 h)]

section

variable {b c : UInt8} (hc : Second b c)
include hc

theorem Second.not_lt : ¬ b < 0x80 := by
  have := hc.low
  rw [UInt8.lt_iff_toNat_lt]
  simp
  omega

theorem first_two (h : b.toNat < 0xE0) (rest : Bytes) :
    first b (c :: rest) = .scalar (Char.ofNat (b.toNat % 32 * 64 + tailBits c)) := by
  obtain ⟨low, high, hrange, hin⟩ := hc.range
  unfold first
  simp only [if_neg hc.not_lt, hrange, if_neg hin]
  rw [if_pos (UInt8.lt_iff_toNat_lt.2 h)]

theorem first_three {d : UInt8} (hlow : 0xE0 ≤ b.toNat) (hhigh : b.toNat < 0xF0) (hd : IsTail d)
    (rest : Bytes) : first b (c :: d :: rest) =
      .scalar (Char.ofNat ((b.toNat % 16 * 64 + tailBits c) * 64 + tailBits d)) := by
  obtain ⟨low, high, hrange, hin⟩ := hc.range
  have hge : ¬ b < 0xE0 := UInt8.not_lt.2 (UInt8.le_iff_toNat_le.2 hlow)
  unfold first
  simp only [if_neg hc.not_lt, hrange, if_neg hin, if_neg hge, if_neg (not_of_isTail hd)]
  rw [if_pos (UInt8.lt_iff_toNat_lt.2 hhigh)]

theorem first_four {d e : UInt8} (hlow : 0xF0 ≤ b.toNat) (hd : IsTail d) (he : IsTail e)
    (rest : Bytes) : first b (c :: d :: e :: rest) = .scalar (Char.ofNat
      (((b.toNat % 8 * 64 + tailBits c) * 64 + tailBits d) * 64 + tailBits e)) := by
  obtain ⟨low, high, hrange, hin⟩ := hc.range
  have hge : ¬ b < 0xE0 :=
    UInt8.not_lt.2 (UInt8.le_iff_toNat_le.2 (Nat.le_trans (by decide) hlow))
  have hge' : ¬ b < 0xF0 := UInt8.not_lt.2 (UInt8.le_iff_toNat_le.2 hlow)
  unfold first
  simp only [if_neg hc.not_lt, hrange, if_neg hin, if_neg hge, if_neg hge',
    if_neg (not_of_isTail hd), if_neg (not_of_isTail he)]

end

/-- The encoding of a scalar, whatever is behind it, has that scalar for its first piece. -/
theorem first_encodeChar (s : Char) (rest : Bytes) : ∃ b tail,
    String.utf8EncodeChar s = b :: tail ∧ first b (tail ++ rest) = .scalar s := by
  have hs : Char.ofNat s.val.toNat = s := Char.ofNat_toNat s
  have hvalid : s.val.toNat.isValidChar := s.valid
  have hbyte : ∀ {n : Nat}, n < 256 → (UInt8.ofNat n).toNat = n := UInt8.toNat_ofNat_of_lt'
  unfold String.utf8EncodeChar
  -- from here on all is arithmetic on the scalar's number
  generalize s.val.toNat = n at *
  unfold Nat.isValidChar at hvalid
  subst hs
  dsimp only
  split_ifs with hone htwo hthree <;> refine ⟨_, _, rfl, ?_⟩
  · have hb := hbyte (show n < 256 by omega)
    rw [first_one (by omega), hb]
  · have hb := hbyte (show n / 64 % 32 + 192 < 256 by omega)
    have hc := hbyte (show n % 64 + 128 < 256 by omega)
    have hsecond : Second (UInt8.ofNat (n / 64 % 32 + 192)) (UInt8.ofNat (n % 64 + 128)) := by
      constructor <;> unfold IsTail at * <;> omega
    rw [List.cons_append, first_two hsecond (by omega), tailBits, hb, hc]
    congr 2
    omega
  · have hb := hbyte (show n / 4096 % 16 + 224 < 256 by omega)
    have hc := hbyte (show n / 64 % 64 + 128 < 256 by omega)
    have hd := hbyte (show n % 64 + 128 < 256 by omega)
    have hsecond : Second (UInt8.ofNat (n / 4096 % 16 + 224)) (UInt8.ofNat (n / 64 % 64 + 128)) := by
      constructor <;> unfold IsTail at * <;> omega
    have htail : IsTail (UInt8.ofNat (n % 64 + 128)) := by unfold IsTail; omega
    rw [List.cons_append, List.cons_append, first_three hsecond (by omega) (by omega) htail,
      tailBits, tailBits, hb, hc, hd]
    congr 2
    omega
  · have hb := hbyte (show n / 262144 % 8 + 240 < 256 by omega)
    have hc := hbyte (show n / 4096 % 64 + 128 < 256 by omega)
    have hd := hbyte (show n / 64 % 64 + 128 < 256 by omega)
    have he := hbyte (show n % 64 + 128 < 256 by omega)
    have hsecond : Second (UInt8.ofNat (n / 262144 % 8 + 240))
        (UInt8.ofNat (n / 4096 % 64 + 128)) := by
      constructor <;> unfold IsTail at * <;> omega
    have htail : IsTail (UInt8.ofNat (n / 64 % 64 + 128)) := by unfold IsTail; omega
    have hlast : IsTail (UInt8.ofNat (n % 64 + 128)) := by unfold IsTail; omega
    rw [List.cons_append, List.cons_append, List.cons_append,
      first_four hsecond (by omega) htail hlast, tailBits, tailBits, tailBits, hb, hc, hd, he]
    congr 2
    omega

/-! ## Bytes below 0x80 -/

/-- A byte below 0x80 is the encoding of the scalar of its number, and no part of another one. -/
theorem mem_encodeChar_iff {b : UInt8} (hb : b.toNat < 0x80) {s : Char} :
    b ∈ String.utf8EncodeChar s ↔ s = Char.ofNat b.toNat := by
  constructor
  · intro h
    have hs : Char.ofNat s.val.toNat = s := Char.ofNat_toNat s
    have hbyte : ∀ {n : Nat}, n < 256 → (UInt8.ofNat n).toNat = n := UInt8.toNat_ofNat_of_lt'
    unfold String.utf8EncodeChar at h
    generalize s.val.toNat = n at *
    subst hs
    dsimp only at h
    split_ifs at h
    · rw [List.mem_singleton.1 h, hbyte (by omega)]
    -- every byte of a longer encoding is at least 0x80
    all_goals
      exfalso
      simp only [List.mem_cons, List.not_mem_nil, or_false, ← UInt8.toNat_inj] at h
    · rw [hbyte (by omega), hbyte (by omega)] at h
      omega
    · rw [hbyte (by omega), hbyte (by omega), hbyte (by omega)] at h
      omega
    · rw [hbyte (by omega), hbyte (by omega), hbyte (by omega), hbyte (by omega)] at h
      omega
  · rintro rfl
    rw [encode_one hb]
    exact List.mem_singleton_self b

theorem mem_encode_iff {b : UInt8} (hb : b.toNat < 0x80) {t : Text} :
    b ∈ encode t ↔ Char.ofNat b.toNat ∈ t := by
  simp [encode, mem_encodeChar_iff hb]

theorem encode_append (s t : Text) : encode (s ++ t) = encode s ++ encode t :=
  List.flatMap_append

/-! ## Pieces -/

theorem piecesFrom_eq : ∀ (skip : Nat) (bytes : Bytes) (done : List Piece),
    piecesFrom skip bytes done = done.reverse ++ pieces (bytes.drop skip)
  | _, [], done => by simp [piecesFrom, pieces]
  | skip + 1, _ :: rest, done => by rw [piecesFrom, piecesFrom_eq skip rest, List.drop_succ_cons]
  | 0, b :: rest, done => by
    rw [List.drop_zero, pieces, piecesFrom, piecesFrom, piecesFrom_eq _ rest, piecesFrom_eq _ rest]
    simp

theorem pieces_cons (b : UInt8) (rest : Bytes) :
    pieces (b :: rest) = first b rest :: pieces (rest.drop ((first b rest).size - 1)) := by
  rw [pieces, piecesFrom, piecesFrom_eq]
  rfl

/-- Bytes whose pieces start with scalars start with the encoding of these scalars. -/
theorem encode_of_pieces : ∀ (text : Text) {bytes : Bytes} {found : List Piece},
    pieces bytes = text.map .scalar ++ found → ∃ rest, bytes = encode text ++ rest ∧ pieces rest = found
  | [], bytes, _, h => ⟨bytes, rfl, h⟩
  | _ :: _, [], _, h => by cases h
  | c :: text, b :: rest, found, h => by
    rw [pieces_cons, List.map_cons, List.cons_append, List.cons.injEq] at h
    obtain ⟨hfirst, hrest⟩ := h
    rw [hfirst] at hrest
    obtain ⟨behind, hbehind, hfound⟩ := encode_of_pieces text hrest
    have hsize : c.utf8Size = c.utf8Size - 1 + 1 := by have := c.utf8Size_pos; omega
    refine ⟨behind, ?_, hfound⟩
    calc b :: rest
        = String.utf8EncodeChar c ++ (b :: rest).drop (String.utf8EncodeChar c).length :=
          (List.prefix_iff_eq_append.1 (first_scalar hfirst)).symm
      _ = String.utf8EncodeChar c ++ rest.drop (c.utf8Size - 1) := by
          rw [String.length_utf8EncodeChar, hsize, List.drop_succ_cons, Nat.add_sub_cancel]
      _ = encode (c :: text) ++ behind := by
          rw [encode, List.flatMap_cons, ← encode, List.append_assoc, ← hbehind]
          rfl

theorem pieces_encode_append : ∀ (t : Text) (rest : Bytes),
    pieces (encode t ++ rest) = t.map .scalar ++ pieces rest
  | [], _ => rfl
  | s :: t, rest => by
    obtain ⟨b, tail, hencode, hfirst⟩ := first_encodeChar s (encode t ++ rest)
    have hsize : s.utf8Size - 1 = tail.length := by
      rw [← String.length_utf8EncodeChar, hencode, List.length_cons, Nat.add_sub_cancel]
    have hcons : encode (s :: t) ++ rest = b :: (tail ++ (encode t ++ rest)) := by
      rw [encode, List.flatMap_cons, hencode, List.cons_append, List.cons_append, List.append_assoc]
      rfl
    rw [hcons, pieces_cons, hfirst, Piece.size, hsize, List.drop_left, pieces_encode_append t]
    rfl

theorem pieces_encode (t : Text) : pieces (encode t) = t.map .scalar := by
  have h := pieces_encode_append t []
  rwa [List.append_nil, show pieces [] = [] from rfl, List.append_nil] at h

theorem scalarsFrom_ok : ∀ {offset : Nat} {found : List Piece} {done text : Text},
    scalarsFrom offset found done = .ok text →
      ∃ scalars : Text, found = scalars.map .scalar ∧ text = done.reverse ++ scalars
  | _, [], done, text, h => ⟨[], rfl, by cases h; simp⟩
  | _, .malformed _ :: _, _, _, h => by cases h
  | _, .scalar c :: rest, done, text, h => by
    rw [scalarsFrom] at h
    obtain ⟨scalars, rfl, rfl⟩ := scalarsFrom_ok h
    exact ⟨c :: scalars, rfl, by simp⟩

/-- Bytes that read as a text are the encoding of that text. -/
theorem encode_of_decode {bytes : Bytes} {text : Text} (h : decode bytes = .ok text) :
    encode text = bytes := by
  obtain ⟨scalars, hpieces, htext⟩ := scalarsFrom_ok h
  rw [List.reverse_nil, List.nil_append] at htext
  subst htext
  rw [← List.append_nil (text.map _)] at hpieces
  obtain ⟨rest, rfl, hrest⟩ := encode_of_pieces text hpieces
  cases rest with
  | nil => rw [List.append_nil]
  | cons b rest => rw [pieces_cons] at hrest; cases hrest

theorem scalarsFrom_scalars : ∀ (offset : Nat) (t done : Text),
    scalarsFrom offset (t.map .scalar) done = .ok (done.reverse ++ t)
  | _, [], done => by rw [List.append_nil]; rfl
  | offset, c :: t, done => by
    rw [List.map_cons, scalarsFrom, scalarsFrom_scalars, List.reverse_cons, List.append_assoc]
    rfl

/-- Bytes read as a text exactly if they are its encoding. -/
theorem decode_eq_ok_iff {bytes : Bytes} {t : Text} : decode bytes = .ok t ↔ encode t = bytes := by
  refine ⟨encode_of_decode, fun h => ?_⟩
  rw [← h, decode, pieces_encode, scalarsFrom_scalars]
  rfl

/-- An encoding reads leniently as the text itself. -/
theorem decodeLossy_encode (t : Text) : decodeLossy (encode t) = t := by
  rw [decodeLossy, pieces_encode, List.map_map]
  exact List.map_id t

theorem encode_injective : Function.Injective encode :=
  Function.LeftInverse.injective decodeLossy_encode

end Repath.Utf8
