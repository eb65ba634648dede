import Liaison.Frame
import Liaison.Proofs.Json.Integer
import Liaison.Proofs.Text.Utf8

/-!
# Header lines

Where the name of the length header is found. Bytes that do not hold the name announce nothing, however
they are cut into lines and whatever is read for those of them that are no text; and they do not hide the
header that follows them on the same line.
-/

namespace Liaison

namespace Frame

/-! ## The name in a text -/

theorem afterName?_eq_none : ∀ {name cs : List Char},
    afterName? name cs = none ↔ ¬ name <+: cs.map Char.toLower
  | [], cs => by simp [afterName?]
  | n :: name, [] => by simp [afterName?]
  | n :: name, c :: cs => by
    rw [afterName?, List.map_cons, List.cons_prefix_cons]
    by_cases h : c.toLower = n
    · rw [if_pos h, afterName?_eq_none]
      simp [h]
    · rw [if_neg h]
      simp [Ne.symm h]

theorem lengthField?_eq_none {cs : List Char} :
    lengthField? cs = none ↔ ¬ lengthName <:+: cs.map Char.toLower := by
  induction cs with
  | nil => decide
  | cons c cs ih =>
    rw [List.map_cons, List.infix_cons_iff, not_or, ← List.map_cons, ← afterName?_eq_none, ← ih]
    cases h : afterName? lengthName (c :: cs) <;> simp [lengthField?, h]

/-- A word whose last letter it holds nowhere else does not begin before it ends. -/
theorem prefix_of_prefix_append {α} {q s v : List α} {a : α} (ha : a ∉ q) (hs : s ≠ [])
    (h : q ++ [a] <+: s ++ (q ++ [a] ++ v)) : q ++ [a] <+: s := by
  rcases Nat.lt_or_ge q.length s.length with hl | hl
  · exact List.prefix_of_prefix_length_le h (List.prefix_append _ _) (by simpa using Nat.succ_le_of_lt hl)
  · exfalso
    have hpos : 0 < s.length := List.length_pos_iff.mpr hs
    have e := List.prefix_iff_getElem?.mp h q.length (by simp)
    rw [List.getElem?_append_right hl, List.append_assoc, List.getElem?_append_left (by omega)] at e
    rw [List.getElem_append_right (Nat.le_refl _)] at e
    exact ha (by simpa using List.mem_of_getElem? e)

def writtenName : List Char := "Content-Length:".toList

theorem lengthField?_append {s : List Char} (h : ¬ lengthName <:+: s.map Char.toLower) (v : List Char) :
    lengthField? (s ++ (writtenName ++ v)) = some v := by
  induction s with
  | nil => rfl
  | cons c s ih =>
    have hn : afterName? lengthName (c :: s ++ (writtenName ++ v)) = none := by
      rw [afterName?_eq_none, List.map_append, List.map_append]
      intro hp
      have hq := prefix_of_prefix_append (q := "content-length".toList) (a := ':') (by decide) (by simp) hp
      exact h hq.isInfix
    rw [List.map_cons, List.infix_cons_iff, not_or] at h
    rw [List.cons_append] at hn ⊢
    rw [lengthField?, hn]
    exact ih h.2

/-! ## The value after the name -/

theorem trim_isInfix (cs : List Char) : trim cs <:+: cs := by
  have h : trimEnd (cs.dropWhile isBlank) <+: cs.dropWhile isBlank := by
    rw [← List.reverse_suffix, trimEnd, List.reverse_reverse]
    exact List.dropWhile_suffix _
  exact h.isInfix.trans (List.dropWhile_suffix _).isInfix

theorem trimEnd_append {c : Char} (hc : isBlank c = false) (cs : List Char) {blanks : List Char}
    (hb : ∀ b ∈ blanks, isBlank b = true) : trimEnd (cs ++ c :: blanks) = cs ++ [c] := by
  have hr : ∀ b ∈ blanks.reverse, isBlank b = true := fun b h => hb b (List.mem_reverse.mp h)
  rw [trimEnd, List.reverse_append, List.reverse_cons, List.append_assoc, List.dropWhile_append_of_pos hr,
    List.singleton_append, List.dropWhile_cons_of_neg (by simp [hc])]
  simp

theorem dropWhile_append_cons {c : Char} (hc : isBlank c = false) (cs rest : List Char) :
    (cs ++ c :: rest).dropWhile isBlank = cs.dropWhile isBlank ++ c :: rest := by
  induction cs with
  | nil => rw [List.nil_append, List.dropWhile_cons_of_neg (by simp [hc])]; rfl
  | cons d cs ih =>
    by_cases hd : isBlank d = true
    · rw [List.cons_append, List.dropWhile_cons_of_pos hd, List.dropWhile_cons_of_pos hd, ih]
    · rw [List.cons_append, List.dropWhile_cons_of_neg hd, List.dropWhile_cons_of_neg hd]; rfl

theorem toNat_of_isDigit {c : Char} (h : c.isDigit = true) : 48 ≤ c.toNat ∧ c.toNat ≤ 57 := by
  simpa [Char.isDigit, UInt32.le_iff_toNat_le] using h

theorem isBlank_digit {c : Char} (h : c.isDigit = true) : isBlank c = false := by
  have hn := toNat_of_isDigit h
  simp only [isBlank, Bool.or_eq_false_iff, Bool.and_eq_false_iff, decide_eq_false_iff_not]
  omega

theorem toDigits_eq_concat (n : Nat) : ∃ ds d, Nat.toDigits 10 n = ds ++ [d] ∧ isBlank d = false := by
  have hne : Nat.toDigits 10 n ≠ [] := Nat.toDigits_ne_nil
  refine ⟨_, _, (List.dropLast_concat_getLast hne).symm, ?_⟩
  exact isBlank_digit (Json.isDigit_of_mem_toDigits (List.getLast_mem hne))

theorem trim_toDigits (n : Nat) : trim (' ' :: Nat.toDigits 10 n) = Nat.toDigits 10 n := by
  obtain ⟨ds, d, hd, hb⟩ := toDigits_eq_concat n
  have hdrop : (Nat.toDigits 10 n).dropWhile isBlank = Nat.toDigits 10 n := by
    cases hc : Nat.toDigits 10 n with
    | nil => rfl
    | cons c cs =>
      have := isBlank_digit (Json.isDigit_of_mem_toDigits (hc ▸ List.mem_cons_self))
      rw [List.dropWhile_cons_of_neg (by simp [this])]
  rw [trim, List.dropWhile_cons_of_pos (by decide), hdrop, hd, trimEnd_append hb _ (by simp)]

theorem natural?_toDigits {n : Nat} (h : n < Nat.pow 2 64) : natural? (Nat.toDigits 10 n) = some n := by
  have hall : (Nat.toDigits 10 n).all Char.isDigit = true :=
    List.all_eq_true.mpr fun c hc => Json.isDigit_of_mem_toDigits hc
  have hne : (Nat.toDigits 10 n).isEmpty = false := by
    simp
  unfold natural?
  split
  · rename_i rest hp
    have : '+' ∈ Nat.toDigits 10 n := hp ▸ List.mem_cons_self
    exact absurd (Json.isDigit_of_mem_toDigits this) (by decide)
  · simp only [hall, hne, Json.ofDigits_toDigits]
    rw [if_pos (by simpa using h)]

def lengthText (n : Nat) : List Char :=
  writtenName ++ ' ' :: Nat.toDigits 10 n

/-- Whatever stands before the header on its line does not matter if it does not hold the name. -/
theorem line_lengthText {s : List Char} (hs : ¬ lengthName <:+: s.map Char.toLower) {n : Nat}
    (hn : n < Nat.pow 2 64) (announced : Announced) :
    announced.line (trim (s ++ (lengthText n ++ ['\r', '\n']))) = .length n := by
  have hs' : ¬ lengthName <:+: (s.dropWhile isBlank).map Char.toLower := fun h =>
    hs (h.trans ((List.dropWhile_suffix _).isInfix.map _))
  have ht : trim (s ++ (lengthText n ++ ['\r', '\n'])) = s.dropWhile isBlank ++ lengthText n := by
    obtain ⟨ds, d, hd, hb⟩ := toDigits_eq_concat n
    obtain ⟨cs, hc⟩ : ∃ cs, writtenName = 'C' :: cs := ⟨_, rfl⟩
    have e : lengthText n ++ ['\r', '\n'] = 'C' :: (cs ++ ' ' :: (ds ++ d :: ['\r', '\n'])) := by
      simp only [lengthText, hc, hd, List.append_assoc, List.cons_append, List.nil_append]
    have e' : lengthText n = 'C' :: (cs ++ ' ' :: (ds ++ [d])) := by
      simp only [lengthText, hc, hd, List.cons_append]
    rw [trim, e, dropWhile_append_cons (by decide), e']
    have hbreak : ∀ b ∈ ['\r', '\n'], isBlank b = true := by simp [isBlank]
    have := trimEnd_append hb (s.dropWhile isBlank ++ 'C' :: (cs ++ ' ' :: ds)) hbreak
    simpa only [List.append_assoc, List.cons_append] using this
  rw [Announced.line, ht, lengthText, lengthField?_append hs']
  simp only [trim_toDigits, natural?_toDigits hn]

/-! ## The name in bytes -/

/-- A byte with its letter in lower case, if it is one of the 26 letters. -/
def lowerByte (b : UInt8) : UInt8 :=
  if 0x41 ≤ b ∧ b ≤ 0x5A then b + 0x20 else b

/-- The bytes hold the name of the length header in any case. -/
def HoldsName (bs : Bytes) : Prop :=
  Utf8.ofString "content-length:" <:+: bs.map lowerByte

instance : DecidablePred HoldsName := fun bs =>
  inferInstanceAs (Decidable (_ <:+: bs.map lowerByte))

theorem toLower_ascii {c : Char} (h : c.toLower.toNat < 0x80) : c.toNat < 0x80 := by
  unfold Char.toLower at h
  split at h
  · rename_i hc
    have := UInt32.le_iff_toNat_le.mp hc.2
    exact Nat.lt_of_le_of_lt this (by decide)
  · exact h

theorem encodeChar_toLower_ofNat : ∀ n < 0x80,
    Utf8.encodeChar (Char.ofNat n).toLower = [lowerByte n.toUInt8] := by
  decide +kernel

theorem prefix_of_decodeLossy {name : List Char} (hname : ∀ c ∈ name, c.toNat < 0x80) {bs : Bytes}
    (h : name <+: (Utf8.decodeLossy bs).map Char.toLower) : Utf8.encode name <+: bs.map lowerByte := by
  induction name generalizing bs with
  | nil => exact List.nil_prefix
  | cons c name ih =>
    cases bs with
    | nil => simp [Utf8.decodeLossy] at h
    | cons b rest =>
      rw [Utf8.decodeLossy, List.map_cons, List.cons_prefix_cons] at h
      obtain ⟨hc, h⟩ := h
      have hlow : ((Utf8.readChar b rest).1.getD (Char.ofNat 0xFFFD)).toNat < 0x80 :=
        toLower_ascii (hc ▸ hname c List.mem_cons_self)
      have hb : b.toNat < 0x80 := by
        rcases Nat.lt_or_ge b.toNat 0x80 with hb | hb
        · exact hb
        · exfalso
          cases e : (Utf8.readChar b rest).1 with
          | none => rw [e] at hlow; exact absurd hlow (by decide)
          | some x =>
            have := Utf8.le_toNat_readChar hb e
            rw [e] at hlow
            exact absurd hlow (by simpa using this)
      rw [Utf8.readChar_ascii hb] at hc h
      rw [List.map_cons, Utf8.encode_cons, hc, Option.getD_some, encodeChar_toLower_ofNat _ hb]
      have e : b.toNat.toUInt8 = b := by simp
      rw [e, List.singleton_append, List.cons_prefix_cons]
      exact ⟨rfl, ih (fun c hc => hname c (List.mem_cons_of_mem _ hc)) h⟩

/-- Reading bytes that are no text as U+FFFD makes no name of what is none. -/
theorem infix_of_decodeLossy {name : List Char} (hname : ∀ c ∈ name, c.toNat < 0x80) {bs : Bytes}
    (h : name <:+: (Utf8.decodeLossy bs).map Char.toLower) : Utf8.encode name <:+: bs.map lowerByte := by
  fun_induction Utf8.decodeLossy bs with
  | case1 =>
    obtain rfl : name = [] := by simpa using h
    exact List.nil_infix
  | case2 b rest c n hr ih =>
    rw [List.map_cons, List.infix_cons_iff, ← List.map_cons] at h
    rcases h with h | h
    · have e : Utf8.decodeLossy (b :: rest) = c.getD (Char.ofNat 0xFFFD) :: Utf8.decodeLossy (rest.drop n) := by
        rw [Utf8.decodeLossy, hr]
      exact (prefix_of_decodeLossy hname (e ▸ h)).isInfix
    · have hs : rest.drop n <:+: b :: rest := ((List.drop_suffix n rest).trans (List.suffix_cons b rest)).isInfix
      exact (ih h).trans (hs.map _)

theorem ascii_lengthName {c : Char} (h : c ∈ lengthName) : c.toNat < 0x80 := by
  have hall : lengthName.all (·.toNat < 0x80) = true := by decide
  exact of_decide_eq_true (List.all_eq_true.mp hall c h)

theorem not_lengthName_of_decodeLossy {bs : Bytes} (h : ¬ HoldsName bs) :
    ¬ lengthName <:+: (Utf8.decodeLossy bs).map Char.toLower := fun hn =>
  h (infix_of_decodeLossy (fun _ => ascii_lengthName) hn)

theorem HoldsName.of_infix {as bs : Bytes} (h : as <:+: bs) (ha : HoldsName as) : HoldsName bs :=
  ha.trans (h.map _)

theorem line_of_not_holdsName {bs : Bytes} (h : ¬ HoldsName bs) (announced : Announced) :
    announced.line (trim (Utf8.decodeLossy bs)) = announced := by
  have hn : lengthField? (trim (Utf8.decodeLossy bs)) = none := by
    rw [lengthField?_eq_none]
    exact fun hi => not_lengthName_of_decodeLossy h (hi.trans ((trim_isInfix _).map _))
  rw [Announced.line, hn]

end Frame

end Liaison
