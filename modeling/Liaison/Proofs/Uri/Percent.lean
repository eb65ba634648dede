import Liaison.Proofs.Text.Utf8
import Liaison.Uri.File

/-!
# Percent-encoding read back

What was encoded is decoded as it was, whatever follows it, so long as percent signs are encoded too. The name of a file
is written in bytes that may stand in a path, none of them a slash, and it is told apart from every other name.
-/

namespace Liaison

namespace Percent

variable {keep : UInt8 → Bool} {bs : Bytes} {b : UInt8}

theorem value?_digit {n : Nat} (h : n < 16) : value? (digit n) = some n := by
  revert n
  decide

theorem decode_cons_of_ne (hb : b ≠ 0x25) (rest : Bytes) : decode (b :: rest) = b :: decode rest := by
  rw [decode]
  rintro _ _ _ rfl
  exact absurd rfl hb

theorem decode_encodeByte_append (hkeep : keep 0x25 = false) (b : UInt8) (rest : Bytes) :
    decode (encodeByte keep b ++ rest) = b :: decode rest := by
  unfold encodeByte
  split
  · rename_i hb
    refine decode_cons_of_ne ?_ rest
    rintro rfl
    rw [hkeep] at hb
    cases hb
  · have hlt := b.toNat_lt
    have hvalue : b.toNat / 16 * 16 + b.toNat % 16 = b.toNat := by omega
    simp only [List.cons_append, List.nil_append, decode, value?_digit (show b.toNat / 16 < 16 by omega),
      value?_digit (show b.toNat % 16 < 16 by omega), hvalue, Utf8.toUInt8_eq rfl]

theorem decode_encode (hkeep : keep 0x25 = false) (bs : Bytes) : decode (encode keep bs) = bs := by
  induction bs with
  | nil => rfl
  | cons b bs ih =>
    rw [encode, List.flatMap_cons, decode_encodeByte_append hkeep]
    exact congrArg (b :: ·) ih

theorem encode_of_forall (h : ∀ b ∈ bs, keep b = true) : encode keep bs = bs := by
  induction bs with
  | nil => rfl
  | cons b bs ih =>
    obtain ⟨hb, hbs⟩ := List.forall_mem_cons.mp h
    rw [encode, List.flatMap_cons, encodeByte, if_pos hb]
    exact congrArg (b :: ·) (ih hbs)

theorem mem_encode (h : b ∈ encode keep bs) : keep b = true ∨ b = 0x25 ∨ ∃ n < 16, b = digit n := by
  obtain ⟨a, -, ha⟩ := List.mem_flatMap.mp h
  have hlt := a.toNat_lt
  unfold encodeByte at ha
  split at ha
  · rename_i hkeep
    rw [List.mem_singleton.mp ha]
    exact .inl hkeep
  · simp only [List.mem_cons, List.not_mem_nil, or_false] at ha
    rcases ha with rfl | rfl | rfl
    · exact .inr (.inl rfl)
    · exact .inr (.inr ⟨_, by omega, rfl⟩)
    · exact .inr (.inr ⟨_, by omega, rfl⟩)

theorem printableExcept_iff {cs : List Char} : printableExcept cs b = true ↔
    0x20 ≤ b.toNat ∧ b.toNat < 0x7F ∧ ∀ c ∈ cs, c.toNat ≠ b.toNat := by
  simp [printableExcept, UInt8.le_iff_toNat_le, UInt8.lt_iff_toNat_lt, and_assoc]

/-- The digits and the percent sign may stand in a path like the bytes that are kept. -/
theorem inPath_of_mem_encode (h : b ∈ encode inName bs) : inPath b = true ∧ b ≠ 0x2F ∧ b ≠ 0x5C := by
  rcases mem_encode h with hb | rfl | ⟨n, hn, rfl⟩
  · simp only [inName, Bool.and_eq_true, decide_eq_true_eq] at hb
    exact ⟨hb.1.1.1, hb.1.1.2, hb.2⟩
  · decide
  · clear h
    revert n
    decide

end Percent

namespace Uri

variable {n : Bytes} {c : Char}

open Percent (inPath inName)

theorem toNat_lt_of_mem_encode {b : UInt8} (h : b ∈ Percent.encode inName n) : b.toNat < 0x80 := by
  have hb := (Percent.printableExcept_iff.mp (Percent.inPath_of_mem_encode h).1).2.1
  omega

theorem mem_ofName (h : c ∈ ofName n) : 0x20 < c.toNat ∧ ∀ d ∈ ['/', '\\', '?', '#'], c ≠ d := by
  obtain ⟨b, hb, rfl⟩ := List.mem_map.mp h
  obtain ⟨hpath, hslash, hback⟩ := Percent.inPath_of_mem_encode hb
  obtain ⟨hlow, -, hnot⟩ := Percent.printableExcept_iff.mp hpath
  have hnat := Utf8.toNat_ofNat_byte b
  have hspace : 0x20 ≠ b.toNat := hnot ' ' (by decide)
  refine ⟨by omega, fun d hd he => ?_⟩
  rw [he] at hnat
  simp only [List.mem_cons, List.not_mem_nil, or_false] at hd
  rcases hd with rfl | rfl | rfl | rfl
  · exact hslash (UInt8.toNat_inj.mp hnat.symm)
  · exact hback (UInt8.toNat_inj.mp hnat.symm)
  · exact hnot '?' (by decide) hnat
  · exact hnot '#' (by decide) hnat

theorem encode_ofName (n : Bytes) : Utf8.encode (ofName n) = Percent.encode inName n :=
  Utf8.encode_map_ofNat fun _ => toNat_lt_of_mem_encode

theorem decode_ofName (n : Bytes) : Percent.decode (Utf8.encode (ofName n)) = n := by
  rw [encode_ofName]
  exact Percent.decode_encode (by decide) n

theorem ofName_injective : Function.Injective ofName := fun m n h => by
  rw [← decode_ofName m, h, decode_ofName]

theorem encode_inPath_ofName (n : Bytes) : encode inPath (ofName n) = ofName n := by
  rw [encode, encode_ofName, Percent.encode_of_forall fun _ hb => (Percent.inPath_of_mem_encode hb).1]
  rfl

end Uri

end Liaison
