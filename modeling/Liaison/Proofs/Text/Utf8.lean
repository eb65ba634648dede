import Liaison.Text.Utf8

/-!
# Reading UTF-8 back

A text that was written is read back as it was, whatever follows it. Any bytes at all may come before a
byte below 0x80: reading takes it up there again, and only such a byte is read as a character below 0x80.
Strictly read, only what was written is a text.
-/

namespace Liaison

namespace Utf8

/-! ## Lead and continuation bytes -/

theorem toNat_toUInt8 {n : Nat} (h : n < 256) : n.toUInt8.toNat = n := by
  simp only [Nat.toUInt8, UInt8.toNat_ofNat']
  omega

theorem lead_ascii {n : Nat} (h : n < 0x80) : lead n = some (0, 0, 0) :=
  if_pos h

theorem lead_two {k : Nat} (h₁ : 2 ≤ k) (h₂ : k < 32) : lead (0xC0 + k) = some (0x80, 0xBF, 1) := by
  rw [lead, if_neg (by omega), if_pos (by omega)]

theorem lead_three {k : Nat} (h : k < 16) : lead (0xE0 + k) =
    some (if k = 0 then 0xA0 else 0x80, if k = 13 then 0x9F else 0xBF, 2) := by
  rw [lead, if_neg (by omega), if_neg (by omega)]
  by_cases h0 : k = 0
  · subst h0; rfl
  by_cases h13 : k = 13
  · subst h13; rfl
  rw [if_neg (by omega), if_neg (by omega), if_pos (by omega), if_neg h0, if_neg h13]

theorem lead_four {k : Nat} (h : k < 5) : lead (0xF0 + k) =
    some (if k = 0 then 0x90 else 0x80, if k = 4 then 0x8F else 0xBF, 3) := by
  match k, h with
  | 0, _ | 1, _ | 2, _ | 3, _ | 4, _ => rfl

theorem lead_cases {b lo hi n : Nat} (h : lead b = some (lo, hi, n)) :
    (b < 0x80 ∧ n = 0) ∨ (0x80 ≤ lo ∧ hi ≤ 0xBF ∧
      ((0xC2 ≤ b ∧ b ≤ 0xDF ∧ n = 1) ∨
        (0xE0 ≤ b ∧ b ≤ 0xEF ∧ (b = 0xE0 → 0xA0 ≤ lo) ∧ (b = 0xED → hi ≤ 0x9F) ∧ n = 2) ∨
        (0xF0 ≤ b ∧ b ≤ 0xF4 ∧ (b = 0xF0 → 0x90 ≤ lo) ∧ (b = 0xF4 → hi ≤ 0x8F) ∧ n = 3))) := by
  unfold lead at h
  repeat' split at h
  all_goals cases h
  all_goals omega

theorem lead_lo {b lo hi n : Nat} (h : lead b = some (lo, hi, n + 1)) : 0x80 ≤ lo := by
  have := lead_cases h
  omega

theorem trail_of_le {lo hi n : Nat} (hlo : lo ≤ n) (hhi : n ≤ hi) (h : n < 256) :
    trail lo hi n.toUInt8 = some (n - 0x80) := by
  rw [trail, toNat_toUInt8 h, if_pos ⟨hlo, hhi⟩]

theorem trail_ascii {lo hi : Nat} {b : UInt8} (hlo : 0x80 ≤ lo) (hb : b.toNat < 0x80) :
    trail lo hi b = none :=
  if_neg (by omega)

theorem trail_eq_some {lo hi x : Nat} {b : UInt8} (h : trail lo hi b = some x) (hlo : 0x80 ≤ lo) :
    lo ≤ x + 0x80 ∧ x + 0x80 ≤ hi := by
  unfold trail at h
  split at h
  · simp only [Option.some.injEq] at h
    omega
  · cases h

/-! ## Reading what was written -/

/-- The first byte of a character and those after it. Whatever follows them, they are read as the
character. -/
theorem readChar_encodeChar (c : Char) : ∃ b bs, encodeChar c = b :: bs ∧
    ∀ rest, readChar b (bs ++ rest) = (some c, bs.length) := by
  have hv : c.toNat < 0xD800 ∨ 0xDFFF < c.toNat ∧ c.toNat < 0x110000 := c.valid
  have hc : Char.ofNat c.toNat = c := Char.ofNat_toNat c
  generalize hn : c.toNat = n at hv hc
  unfold encodeChar
  simp only [hn]
  by_cases h1 : n < 0x80
  · refine ⟨_, _, if_pos h1, ?_⟩
    intro rest
    simp only [readChar]
    rw [toNat_toUInt8 (by omega), lead_ascii h1]
    simp only [hc]; rfl
  rw [if_neg h1]
  by_cases h2 : n < 0x800
  · refine ⟨_, _, if_pos h2, ?_⟩
    intro rest
    simp only [readChar]
    rw [toNat_toUInt8 (by omega), lead_two (by omega) (by omega)]
    simp only [List.cons_append]
    rw [trail_of_le (by omega) (by omega) (by omega)]
    have e : (0xC0 + n / 64 - 0xC0) * 64 + (0x80 + n % 64 - 0x80) = n := by omega
    simp only [e, hc]; rfl
  rw [if_neg h2]
  by_cases h3 : n < 0x10000
  · refine ⟨_, _, if_pos h3, ?_⟩
    intro rest
    simp only [readChar]
    rw [toNat_toUInt8 (by omega), lead_three (by omega)]
    simp only [List.cons_append]
    rw [trail_of_le (by split <;> omega) (by split <;> omega) (by omega)]
    simp only
    rw [trail_of_le (by omega) (by omega) (by omega)]
    have e : (0xE0 + n / 4096 - 0xE0) * 4096 + (0x80 + n / 64 % 64 - 0x80) * 64 +
        (0x80 + n % 64 - 0x80) = n := by omega
    simp only [e, hc]; rfl
  · refine ⟨_, _, if_neg h3, ?_⟩
    intro rest
    simp only [readChar]
    rw [toNat_toUInt8 (by omega), lead_four (by omega)]
    simp only [List.cons_append]
    rw [trail_of_le (by split <;> omega) (by split <;> omega) (by omega)]
    simp only
    rw [trail_of_le (by omega) (by omega) (by omega)]
    simp only
    rw [trail_of_le (by omega) (by omega) (by omega)]
    have e : (0xF0 + n / 262144 - 0xF0) * 262144 + (0x80 + n / 4096 % 64 - 0x80) * 4096 +
        (0x80 + n / 64 % 64 - 0x80) * 64 + (0x80 + n % 64 - 0x80) = n := by omega
    simp only [e, hc]; rfl

theorem decode?_encode (cs : List Char) : decode? (encode cs) = some cs := by
  induction cs with
  | nil => rw [encode_nil, decode?]
  | cons c cs ih =>
    obtain ⟨b, bs, hb, hr⟩ := readChar_encodeChar c
    rw [encode_cons, hb, List.cons_append, decode?, hr]
    simp only [List.drop_left, ih, Option.map_some]

theorem decodeLossy_encode_append (cs : List Char) (rest : Bytes) :
    decodeLossy (encode cs ++ rest) = cs ++ decodeLossy rest := by
  induction cs with
  | nil => rfl
  | cons c cs ih =>
    obtain ⟨b, bs, hb, hr⟩ := readChar_encodeChar c
    rw [encode_cons, hb, List.cons_append, List.cons_append, List.append_assoc, decodeLossy, hr]
    simp only [List.drop_left, ih, Option.getD_some, List.cons_append]

/-! ## Bytes below 0x80

Such a byte belongs to no longer sequence, so that whatever was begun before it ends there. -/

theorem readChar_ascii {b : UInt8} (hb : b.toNat < 0x80) (rest : Bytes) :
    readChar b rest = (some (Char.ofNat b.toNat), 0) := by
  rw [readChar, lead_ascii hb]

theorem readChar_snd_le (b : UInt8) (rest : Bytes) : (readChar b rest).2 ≤ rest.length := by
  unfold readChar
  repeat' split
  all_goals simp

theorem readChar_append_ascii (b : UInt8) (rest : Bytes) {a : UInt8} (ha : a.toNat < 0x80) (more : Bytes) :
    readChar b (rest ++ a :: more) = readChar b rest := by
  have hz : ∀ {lo hi : Nat}, 0x80 ≤ lo → trail lo hi a = none := fun h => trail_ascii h ha
  unfold readChar
  split
  · rfl
  · rfl
  · rename_i lo hi n hl
    -- only a sequence that lacks bytes comes to look at `a`
    match rest, n with
    | [], _ => simp [hz (lead_lo hl)]
    | [b₁], n => cases h₁ : trail lo hi b₁ <;> cases n <;> simp [h₁, hz]
    | [b₁, b₂], 0 => cases h₁ : trail lo hi b₁ <;> simp [h₁]
    | [b₁, b₂], n + 1 =>
      cases h₁ : trail lo hi b₁ <;> cases h₂ : trail 0x80 0xBF b₂ <;> cases n <;> simp [h₁, h₂, hz]
    | _ :: _ :: _ :: _, _ => rfl

theorem decodeLossy_append_ascii (bs : Bytes) {a : UInt8} (ha : a.toNat < 0x80) (more : Bytes) :
    decodeLossy (bs ++ a :: more) = decodeLossy bs ++ decodeLossy (a :: more) := by
  fun_induction decodeLossy bs with
  | case1 => rfl
  | case2 b rest c n h ih =>
    have hn : n ≤ rest.length := by
      have := readChar_snd_le b rest
      rwa [h] at this
    rw [List.cons_append, decodeLossy, readChar_append_ascii b rest ha, h]
    simp only [List.drop_append_of_le_length hn, ih, List.cons_append]

/-! ## Characters below 0x80 -/

theorem toNat_ofNat {n : Nat} (h : n < 0xD800 ∨ 0xDFFF < n ∧ n < 0x110000) : (Char.ofNat n).toNat = n := by
  have hn : n.isValidChar := h
  rw [Char.ofNat, dif_pos hn]
  rfl

theorem toNat_ofNat_byte (b : UInt8) : (Char.ofNat b.toNat).toNat = b.toNat := by
  have hlt := b.toNat_lt
  exact toNat_ofNat (by omega)

theorem le_toNat_ofNat {n : Nat} (h : 0x80 ≤ n) (hv : n < 0xD800 ∨ 0xDFFF < n ∧ n < 0x110000) :
    0x80 ≤ (Char.ofNat n).toNat := by
  rw [toNat_ofNat hv]
  exact h

theorem encode_map_ofNat {bs : Bytes} (h : ∀ b ∈ bs, b.toNat < 0x80) :
    encode (bs.map fun b => Char.ofNat b.toNat) = bs := by
  induction bs with
  | nil => rfl
  | cons b bs ih =>
    obtain ⟨hb, hbs⟩ := List.forall_mem_cons.mp h
    rw [List.map_cons, encode_cons, ih hbs, encodeChar, toNat_ofNat_byte, if_pos hb]
    simp

/-- The bounds of the second byte leave no room for an overlong sequence or half of a surrogate pair,
so that a sequence is never read as a character below 0x80. -/
theorem le_toNat_readChar {b : UInt8} (hb : 0x80 ≤ b.toNat) {rest : Bytes} {c : Char}
    (h : (readChar b rest).1 = some c) : 0x80 ≤ c.toNat := by
  unfold readChar at h
  split at h
  · cases h
  · rename_i hl
    have := lead_cases hl
    omega
  rename_i lo hi n hl
  have hc := lead_cases hl
  split at h
  · cases h
  rename_i b₁ rest
  split at h
  · cases h
  · rename_i x₁ h₁
    have := trail_eq_some h₁ (lead_lo hl)
    cases h
    exact le_toNat_ofNat (by omega) (by omega)
  rename_i x₁ n h₁
  have := trail_eq_some h₁ (lead_lo hl)
  split at h
  · cases h
  rename_i b₂ rest
  split at h
  · cases h
  · rename_i x₂ h₂
    have := trail_eq_some h₂ (Nat.le_refl _)
    cases h
    exact le_toNat_ofNat (by omega) (by omega)
  rename_i x₂ k h₂
  have := trail_eq_some h₂ (Nat.le_refl _)
  split at h
  · cases h
  split at h
  · cases h
  rename_i x₃ h₃
  have := trail_eq_some h₃ (Nat.le_refl _)
  cases h
  exact le_toNat_ofNat (by omega) (by omega)

/-! ## Only what was written is read -/

theorem toNat_of_trail {lo hi x : Nat} {b : UInt8} (h : trail lo hi b = some x) (hlo : 0x80 ≤ lo) :
    b.toNat = 0x80 + x := by
  unfold trail at h
  split at h
  · simp only [Option.some.injEq] at h
    omega
  · cases h

theorem toUInt8_eq {n : Nat} {b : UInt8} (h : n = b.toNat) : n.toUInt8 = b := by
  simp [h]

theorem encodeChar_of_readChar {b : UInt8} {rest : Bytes} {c : Char} {n : Nat} (h : readChar b rest = (some c, n)) :
    encodeChar c = b :: rest.take n := by
  have hb : b.toNat < 256 := b.toNat_lt
  unfold readChar at h
  split at h
  · cases h
  · rename_i hl
    have := lead_cases hl
    cases h
    rw [encodeChar, toNat_ofNat (by omega), if_pos (by omega)]
    simp
  rename_i lo hi k hl
  have hlo := lead_lo hl
  have hc := lead_cases hl
  split at h
  · cases h
  rename_i b₁ rest
  split at h
  · cases h
  · rename_i x₁ h₁
    have := trail_eq_some h₁ hlo
    have hb₁ := toNat_of_trail h₁ hlo
    cases h
    rw [encodeChar, toNat_ofNat (by omega), if_neg (by omega), if_pos (by omega), toUInt8_eq (b := b) (by omega),
      toUInt8_eq (b := b₁) (by omega)]
    rfl
  rename_i x₁ k h₁
  have := trail_eq_some h₁ hlo
  have hb₁ := toNat_of_trail h₁ hlo
  split at h
  · cases h
  rename_i b₂ rest
  split at h
  · cases h
  · rename_i x₂ h₂
    have := trail_eq_some h₂ (Nat.le_refl _)
    have hb₂ := toNat_of_trail h₂ (Nat.le_refl _)
    cases h
    rw [encodeChar, toNat_ofNat (by omega), if_neg (by omega), if_neg (by omega), if_pos (by omega),
      toUInt8_eq (b := b) (by omega), toUInt8_eq (b := b₁) (by omega), toUInt8_eq (b := b₂) (by omega)]
    rfl
  rename_i x₂ j h₂
  have := trail_eq_some h₂ (Nat.le_refl _)
  have hb₂ := toNat_of_trail h₂ (Nat.le_refl _)
  split at h
  · cases h
  rename_i b₃ rest
  split at h
  · cases h
  rename_i x₃ h₃
  have := trail_eq_some h₃ (Nat.le_refl _)
  have hb₃ := toNat_of_trail h₃ (Nat.le_refl _)
  cases h
  rw [encodeChar, toNat_ofNat (by omega), if_neg (by omega), if_neg (by omega), if_neg (by omega),
    toUInt8_eq (b := b) (by omega), toUInt8_eq (b := b₁) (by omega), toUInt8_eq (b := b₂) (by omega),
    toUInt8_eq (b := b₃) (by omega)]
  rfl

theorem decode?_eq_some_iff {bs : Bytes} {cs : List Char} : decode? bs = some cs ↔ bs = encode cs := by
  refine ⟨fun h => ?_, fun h => h ▸ decode?_encode cs⟩
  fun_induction decode? bs generalizing cs with
  | case1 =>
    cases h
    rfl
  | case2 => cases h
  | case3 b rest c n hread ih =>
    obtain ⟨cs, hcs, rfl⟩ := Option.map_eq_some_iff.mp h
    rw [encode_cons, encodeChar_of_readChar hread, ← ih hcs, List.cons_append, List.take_append_drop]

theorem toString?_eq_some_iff {bs : Bytes} {s : String} : toString? bs = some s ↔ bs = ofString s := by
  rw [toString?, Option.map_eq_some_iff, ofString]
  constructor
  · rintro ⟨cs, hcs, rfl⟩
    rw [decode?_eq_some_iff.mp hcs, String.toList_ofList]
  · rintro rfl
    exact ⟨_, decode?_encode _, String.ofList_toList⟩

end Utf8

end Liaison
