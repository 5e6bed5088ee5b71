/-
The two ways of decoding bytes. Both refuse what counts as binary, by the same window; of anything
else the strict way gives the text of well-formed bytes or the length of their longest well-formed
start, and the lenient way gives the same text or one that does not encode back to the bytes
(`decode_exact`).
-/
import Repath.Proofs.Files.Disk
import Repath.Proofs.Utf8.WellFormed

namespace Repath

theorem isBinary_iff {bytes : Bytes} :
    isBinary bytes = true ↔ 0 ∈ bytes.take (min bytes.length 8192) := by
  rw [isBinary, List.contains_iff_mem, Nat.min_comm, ← List.take_take, List.take_length]
  rfl

theorem decodeStrict_eq_binary_iff {bytes : Bytes} {path : Text} :
    decodeStrict bytes path = .error .binary ↔ isBinary bytes = true := by
  unfold decodeStrict
  cases isBinary bytes with
  | true => simp
  | false => cases Utf8.decode bytes <;> simp

theorem decodeLossy_eq_binary_iff {bytes : Bytes} :
    decodeLossy bytes = .error .binary ↔ isBinary bytes = true := by
  unfold decodeLossy
  cases isBinary bytes <;> simp

/-- Both ways of decoding refuse bytes as binary exactly if a NUL is in the window. Of any other
bytes the strict way gives a text exactly if they are well-formed, which is then the text that they
encode, and the lenient way gives the same. Where they are not well-formed, the strict way names the
length of the longest start that is; the lenient way gives the text of that start with a replacement
character behind it, and its text does not encode back. -/
theorem decode_exact (bytes : Bytes) (path : Text) :
    (decodeStrict bytes path = .error .binary ↔ 0 ∈ bytes.take (min bytes.length 8192)) ∧
    (decodeLossy bytes = .error .binary ↔ 0 ∈ bytes.take (min bytes.length 8192)) ∧
    (0 ∉ bytes.take (min bytes.length 8192) →
      (∀ text, decodeStrict bytes path = .ok text ↔
        Utf8.WellFormed bytes ∧ Utf8.encode text = bytes) ∧
      (Utf8.WellFormed bytes →
        ∃ text, decodeStrict bytes path = .ok text ∧ decodeLossy bytes = .ok text) ∧
      (¬ Utf8.WellFormed bytes → ∃ n head rest,
        IsGreatest {m | m ≤ bytes.length ∧ Utf8.WellFormed (bytes.take m)} n ∧
        decodeStrict bytes path = .error (.encoding path n) ∧
        Utf8.encode head = bytes.take n ∧
        decodeLossy bytes = .ok (head ++ replacementChar :: rest) ∧
        Utf8.encode (head ++ replacementChar :: rest) ≠ bytes)) := by
  rw [← isBinary_iff, Bool.not_eq_true]
  refine ⟨decodeStrict_eq_binary_iff, decodeLossy_eq_binary_iff, fun hbinary => ?_⟩
  have hlossy : decodeLossy bytes = .ok (Utf8.decodeLossy bytes) := by simp [decodeLossy, hbinary]
  have hok (text : Text) : decodeStrict bytes path = .ok text ↔ Utf8.encode text = bytes := by
    rw [Disk.decodeStrict_eq_ok_iff, and_iff_right hbinary]
  refine ⟨fun text => ?_, fun hwell => ?_, fun hmalformed => ?_⟩
  · rw [hok]
    exact ⟨fun h => ⟨Utf8.wellFormed_iff.2 ⟨text, h⟩, h⟩, fun h => h.2⟩
  · obtain ⟨text, htext⟩ := Utf8.wellFormed_iff.1 hwell
    refine ⟨text, (hok text).2 htext, ?_⟩
    rw [hlossy, ← htext, Utf8.decodeLossy_encode]
  · have hnot (text : Text) : Utf8.encode text ≠ bytes :=
      fun h => hmalformed (Utf8.wellFormed_iff.2 ⟨text, h⟩)
    cases hdecode : Utf8.decode bytes with
    | ok text => exact absurd (Utf8.decode_eq_ok_iff.1 hdecode) (hnot text)
    | error n =>
      obtain ⟨hgreatest, head, rest, hhead, htext⟩ := Utf8.decode_error_spec hdecode
      have hstrict : decodeStrict bytes path = .error (.encoding path n) := by
        simp [decodeStrict, hbinary, hdecode]
      exact ⟨n, head, rest, hgreatest, hstrict, hhead, by rw [hlossy, htext], hnot _⟩

/-- Two letters and the start of an encoding that its last byte cuts off, before another letter. -/
theorem decode_exact_cut : let bytes : Bytes := [0x61, 0x62, 0xE2, 0x82, 0x63]
    0 ∉ bytes.take (min bytes.length 8192) ∧ ¬ Utf8.WellFormed bytes ∧
    decodeStrict bytes ['p'] = .error (.encoding ['p'] 2) ∧
    decodeLossy bytes = .ok ['a', 'b', replacementChar, 'c'] ∧
    IsGreatest {m | m ≤ bytes.length ∧ Utf8.WellFormed (bytes.take m)} 2 := by
  intro bytes
  have hbinary : 0 ∉ bytes.take (min bytes.length 8192) := by decide
  have hstrict : decodeStrict bytes ['p'] = .error (.encoding ['p'] 2) := by decide
  have hmalformed : ¬ Utf8.WellFormed bytes := by
    intro hwell
    obtain ⟨text, htext, -⟩ := ((decode_exact bytes ['p']).2.2 hbinary).2.1 hwell
    rw [hstrict] at htext
    cases htext
  obtain ⟨n, head, rest, hgreatest, hoffset, -⟩ :=
    ((decode_exact bytes ['p']).2.2 hbinary).2.2 hmalformed
  rw [hstrict] at hoffset
  cases hoffset
  exact ⟨hbinary, hmalformed, hstrict, by decide, hgreatest⟩

end Repath
