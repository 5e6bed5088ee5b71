/-
Well-formed UTF-8, said by the numbers that bytes carry and without the ranges a reader looks at:
a sequence is well-formed if it is cut into pieces that each carry a scalar in the shortest form
(`Proper`). These pieces are exactly the encodings of scalars (`proper_encodeChar`,
`Proper.encodeChar`), so well-formed bytes are the encodings of texts (`wellFormed_iff`), and a
reading that stops names the length of the longest well-formed start (`decode_error_spec`).
-/
import Repath.Proofs.Utf8
import Mathlib.Data.List.Basic
import Mathlib.Order.Bounds.Defs

namespace Repath.Utf8

/-! ## Bytes that carry a number -/

/-- A first byte tells how many follow it, and each of these carries six bits more. -/
inductive Carries : Bytes → Nat → Prop
  | one {b : UInt8} {n : Nat} : b.toNat < 0x80 → n = b.toNat → Carries [b] n
  | two {b c : UInt8} {n : Nat} : 0xC0 ≤ b.toNat → b.toNat < 0xE0 → IsTail c →
      n = b.toNat % 32 * 64 + tailBits c → Carries [b, c] n
  | three {b c d : UInt8} {n : Nat} : 0xE0 ≤ b.toNat → b.toNat < 0xF0 → IsTail c → IsTail d →
      n = (b.toNat % 16 * 64 + tailBits c) * 64 + tailBits d → Carries [b, c, d] n
  | four {b c d e : UInt8} {n : Nat} : 0xF0 ≤ b.toNat → b.toNat < 0xF8 → IsTail c → IsTail d →
      IsTail e → n = ((b.toNat % 8 * 64 + tailBits c) * 64 + tailBits d) * 64 + tailBits e →
      Carries [b, c, d, e] n

/-- The least number for which so many bytes are needed. -/
def leastOf : Nat → Nat
  | 0 | 1 => 0
  | 2 => 0x80
  | 3 => 0x800
  | _ => 0x10000

/-- The bytes carry a scalar, and in no more bytes than it needs. -/
structure Proper (bytes : Bytes) (n : Nat) : Prop where
  carries : Carries bytes n
  notOverlong : leastOf bytes.length ≤ n
  notSurrogate : ¬ (0xD800 ≤ n ∧ n ≤ 0xDFFF)
  le_last : n ≤ 0x10FFFF

/-- The bytes of scalars, one after the other. -/
inductive WellFormed : Bytes → Prop
  | nil : WellFormed []
  | append {bytes rest : Bytes} {n : Nat} :
      Proper bytes n → WellFormed rest → WellFormed (bytes ++ rest)

theorem Proper.encodeChar {bytes : Bytes} {n : Nat} (h : Proper bytes n) :
    String.utf8EncodeChar (Char.ofNat n) = bytes := by
  obtain ⟨hcarries, hleast, hsurrogate, hlast⟩ := h
  -- the conditions on the number are those on the second byte
  cases hcarries with
  | one hb hn =>
    subst hn
    exact encode_one hb
  | two hlow hhigh hc hn =>
    subst hn
    simp only [leastOf, List.length_cons, List.length_nil, tailBits, IsTail] at *
    exact encode_two (by omega) hhigh hc
  | three hlow hhigh hc hd hn =>
    subst hn
    simp only [leastOf, List.length_cons, List.length_nil, tailBits, IsTail] at *
    exact encode_three hlow hhigh hc hd (by omega) (by omega)
  | four hlow hhigh hc hd he hn =>
    subst hn
    simp only [leastOf, List.length_cons, List.length_nil, tailBits, IsTail] at *
    exact encode_four hlow (by omega) hc hd he (by omega) (by omega)

theorem proper_encodeChar (s : Char) : Proper (String.utf8EncodeChar s) s.val.toNat := by
  have hvalid : s.val.toNat.isValidChar := s.valid
  have hbyte : ∀ {n : Nat}, n < 256 → (UInt8.ofNat n).toNat = n := UInt8.toNat_ofNat_of_lt'
  unfold String.utf8EncodeChar
  generalize s.val.toNat = n at *
  unfold Nat.isValidChar at hvalid
  dsimp only
  split_ifs with hone htwo hthree
  · have hb := hbyte (show n < 256 by omega)
    exact ⟨.one (by omega) hb.symm, by simp [leastOf], by omega, by omega⟩
  · have hb := hbyte (show n / 64 % 32 + 192 < 256 by omega)
    have hc := hbyte (show n % 64 + 128 < 256 by omega)
    refine ⟨.two (by omega) (by omega) ?_ ?_, ?_, by omega, by omega⟩ <;>
      simp only [IsTail, tailBits, leastOf, List.length_cons, List.length_nil] <;> omega
  · have hb := hbyte (show n / 4096 % 16 + 224 < 256 by omega)
    have hc := hbyte (show n / 64 % 64 + 128 < 256 by omega)
    have hd := hbyte (show n % 64 + 128 < 256 by omega)
    refine ⟨.three (by omega) (by omega) ?_ ?_ ?_, ?_, by omega, by omega⟩ <;>
      simp only [IsTail, tailBits, leastOf, List.length_cons, List.length_nil] <;> omega
  · have hb := hbyte (show n / 262144 % 8 + 240 < 256 by omega)
    have hc := hbyte (show n / 4096 % 64 + 128 < 256 by omega)
    have hd := hbyte (show n / 64 % 64 + 128 < 256 by omega)
    have he := hbyte (show n % 64 + 128 < 256 by omega)
    refine ⟨.four (by omega) (by omega) ?_ ?_ ?_ ?_, ?_, by omega, by omega⟩ <;>
      simp only [IsTail, tailBits, leastOf, List.length_cons, List.length_nil] <;> omega

/-! ## Texts -/

theorem wellFormed_encode : ∀ t : Text, WellFormed (encode t)
  | [] => .nil
  | s :: t => by
    rw [encode, List.flatMap_cons]
    exact .append (proper_encodeChar s) (wellFormed_encode t)

/-- Well-formed bytes are the encodings of texts. -/
theorem wellFormed_iff {bytes : Bytes} : WellFormed bytes ↔ ∃ t, encode t = bytes := by
  constructor
  · intro h
    induction h with
    | nil => exact ⟨[], rfl⟩
    | @append bytes rest n hproper _ ih =>
      obtain ⟨t, rfl⟩ := ih
      refine ⟨Char.ofNat n :: t, ?_⟩
      rw [encode, List.flatMap_cons, hproper.encodeChar]
      rfl
  · rintro ⟨t, rfl⟩
    exact wellFormed_encode t

/-! ## Where a reading stops -/

theorem scalarsFrom_error : ∀ {offset : Nat} {found : List Piece} {done : Text} {n : Nat},
    scalarsFrom offset found done = .error n → ∃ head bad rest,
      found = head.map .scalar ++ .malformed bad :: rest ∧ n = offset + (encode head).length
  | _, [], _, _, h => by cases h
  | offset, .malformed bad :: rest, _, _, h => by
    obtain rfl := Except.error.inj h
    exact ⟨[], bad, rest, rfl, rfl⟩
  | offset, .scalar c :: found, _, n, h => by
    rw [scalarsFrom] at h
    obtain ⟨head, bad, rest, rfl, rfl⟩ := scalarsFrom_error h
    refine ⟨c :: head, bad, rest, rfl, ?_⟩
    rw [encode, encode, List.flatMap_cons, List.length_append, String.length_utf8EncodeChar,
      Nat.add_assoc]

theorem map_scalar_injective : Function.Injective (List.map Piece.scalar) :=
  List.map_injective_iff.2 fun _ _ => Piece.scalar.inj

/-- A start that encodes a text ends before the first malformed piece. -/
theorem prefix_of_pieces {t head : Text} {bad : Bytes} {found rest : List Piece}
    (h : t.map .scalar ++ found = head.map Piece.scalar ++ .malformed bad :: rest) : t <+: head := by
  rcases List.append_eq_append_iff.1 h with ⟨between, hhead, -⟩ | ⟨between, ht, hbehind⟩
  · obtain ⟨t', more, rfl, ht', -⟩ := List.map_eq_append_iff.1 hhead
    rw [map_scalar_injective ht']
    exact List.prefix_append t more
  · cases between with
    | nil =>
      rw [List.append_nil] at ht
      obtain rfl := map_scalar_injective ht
      exact List.prefix_refl t
    | cons piece between =>
      obtain ⟨rfl, -⟩ := List.cons.inj hbehind
      obtain ⟨s, -, hs⟩ := List.mem_map.1 (ht ▸ List.mem_append_right _ (List.mem_cons_self ..))
      cases hs

/-- A reading that stops has read the longest start that is well-formed, and the lenient reading
goes on from there with a replacement character. -/
theorem decode_error_spec {bytes : Bytes} {n : Nat} (h : decode bytes = .error n) :
    IsGreatest {m | m ≤ bytes.length ∧ WellFormed (bytes.take m)} n ∧
      ∃ head rest, encode head = bytes.take n ∧
        decodeLossy bytes = head ++ replacementChar :: rest := by
  obtain ⟨head, bad, rest, hpieces, hn⟩ := scalarsFrom_error h
  obtain ⟨behind, hbytes, -⟩ := encode_of_pieces head hpieces
  rw [Nat.zero_add] at hn
  have htake : bytes.take n = encode head := by rw [hbytes, hn, List.take_left]
  have hlength : n ≤ bytes.length := by
    rw [hbytes, hn, List.length_append]
    exact Nat.le_add_right ..
  refine ⟨⟨⟨hlength, htake ▸ wellFormed_encode head⟩, ?_⟩, head, rest.map Piece.lossy, htake.symm, ?_⟩
  · rintro m ⟨hm, hwell⟩
    obtain ⟨t, ht⟩ := wellFormed_iff.1 hwell
    rw [← List.take_append_drop m bytes, ← ht, pieces_encode_append] at hpieces
    obtain ⟨more, rfl⟩ := prefix_of_pieces hpieces
    calc m = (encode t).length := by rw [ht, List.length_take, Nat.min_eq_left hm]
      _ ≤ n := by rw [hn, encode_append, List.length_append]; exact Nat.le_add_right ..
  · rw [decodeLossy, hpieces, List.map_append, List.map_map, List.map_cons]
    exact congrArg (· ++ _) (List.map_id head)

end Repath.Utf8
