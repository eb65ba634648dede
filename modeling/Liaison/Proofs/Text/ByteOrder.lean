import Liaison.Proofs.Text.Utf8
import Mathlib.Data.String.Basic

/-!
# The order of written texts

Texts stand in the same order as their bytes: a longer sequence has a greater lead byte, and two of one length differ
first in the digit that the characters differ first in.
-/

namespace Liaison

namespace Utf8

theorem cons_lt_cons_iff {m n : Nat} {bs bs' : Bytes} (hm : m < 256) (hn : n < 256) :
    m.toUInt8 :: bs < n.toUInt8 :: bs' ↔ m < n ∨ m = n ∧ bs < bs' := by
  rw [List.cons_lt_cons_iff, UInt8.lt_iff_toNat_lt, ← UInt8.toNat_inj, toNat_toUInt8 hm, toNat_toUInt8 hn]

theorem encodeChar_append_lt {c d : Char} (h : c < d) (bs bs' : Bytes) :
    encodeChar c ++ bs < encodeChar d ++ bs' := by
  have hlt : c.toNat < d.toNat := h
  have hd : d.toNat < 0xD800 ∨ 0xDFFF < d.toNat ∧ d.toNat < 0x110000 := d.valid
  unfold encodeChar
  generalize c.toNat = m at hlt ⊢
  generalize d.toNat = n at hlt hd ⊢
  dsimp only
  split_ifs <;> simp (disch := omega) only [List.cons_append, List.nil_append, cons_lt_cons_iff] <;> omega

theorem encode_lt_encode {cs ds : List Char} (h : cs < ds) : encode cs < encode ds := by
  induction cs generalizing ds with
  | nil =>
    cases ds with
    | nil => simp at h
    | cons d ds =>
      obtain ⟨b, bs, hb, -⟩ := readChar_encodeChar d
      simp [hb]
  | cons c cs ih =>
    cases ds with
    | nil => simp at h
    | cons d ds =>
      rw [encode_cons, encode_cons]
      rcases List.cons_lt_cons_iff.mp h with hc | ⟨rfl, hcs⟩
      · exact encodeChar_append_lt hc _ _
      · exact List.append_left_lt (ih hcs)

theorem ofString_lt_iff {s t : String} : ofString s < ofString t ↔ s < t := by
  rw [String.lt_iff_toList_lt]
  refine ⟨fun h => ?_, encode_lt_encode⟩
  by_contra hn
  rcases lt_or_eq_of_le (not_lt.mp hn) with hlt | heq
  · exact List.lt_asymm h (encode_lt_encode hlt)
  · unfold ofString at h
    rw [heq] at h
    exact List.lt_irrefl _ h

theorem ofString_le_iff {s t : String} : ofString s ≤ ofString t ↔ s ≤ t := by
  rw [← List.not_lt, ofString_lt_iff, not_lt]

end Utf8

end Liaison
