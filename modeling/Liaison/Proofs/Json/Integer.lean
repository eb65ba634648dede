import Liaison.Json.Printer
import Liaison.Json.Reader

/-!
# Reading integers back

The decimal digits of an integer are read as the integer if the significand fits into 64 bits and, after
a minus, is at most 2^63. What follows must not go on with the number.
-/

namespace Liaison

namespace Json

/-! ## Digits -/

theorem ofDigits_eq (ds : List Char) : ofDigits ds = Nat.ofDigitChars 10 ds 0 := by
  simp only [ofDigits, Nat.ofDigitChars, Nat.mul_comm]

@[simp] theorem ofDigits_toDigits (n : Nat) : ofDigits (Nat.toDigits 10 n) = n := by
  rw [ofDigits_eq, Nat.ofDigitChars_ten_toDigits]

theorem isDigit_of_mem_toDigits {n : Nat} {c : Char} (h : c ∈ Nat.toDigits 10 n) : c.isDigit = true :=
  Nat.isDigit_of_mem_toDigits (by decide) (by decide) h

theorem ne_of_isDigit {c d : Char} (hc : c.isDigit = true) (hd : d.isDigit = false) : c ≠ d := by
  rintro rfl
  rw [hc] at hd; cases hd

theorem toDigits_eq_zero_cons {n : Nat} {ds : List Char} (h : Nat.toDigits 10 n = '0' :: ds) : ds = [] := by
  induction n using Nat.strongRecOn generalizing ds with
  | ind n ih =>
    by_cases hn : n < 10
    · rw [Nat.toDigits_of_lt_base hn] at h
      exact (List.cons.inj h).2.symm
    · rw [Nat.toDigits_of_base_le (by decide) (Nat.le_of_not_lt hn)] at h
      cases hd : Nat.toDigits 10 (n / 10) with
      | nil => exact absurd hd Nat.toDigits_ne_nil
      | cons d ds' =>
        rw [hd, List.cons_append, List.cons.injEq] at h
        obtain ⟨rfl, rfl⟩ := h
        obtain rfl := ih (n / 10) (by omega) hd
        have hz : n / 10 = 0 := by
          have := congrArg ofDigits hd
          rwa [ofDigits_toDigits] at this
        omega

theorem le_foldl_digits (ds : List Char) (s : Nat) :
    s ≤ ds.foldl (fun n c => n * 10 + (c.toNat - '0'.toNat)) s := by
  induction ds generalizing s with
  | nil => exact Nat.le_refl _
  | cons d ds ih => exact Nat.le_trans (show s ≤ s * 10 + (d.toNat - '0'.toNat) by omega) (ih _)

theorem absorb_of_lt (ds : List Char) (s : Nat)
    (h : ds.foldl (fun n c => n * 10 + (c.toNat - '0'.toNat)) s < Nat.pow 2 64) :
    absorb s ds = (ds.foldl (fun n c => n * 10 + (c.toNat - '0'.toNat)) s, 0) := by
  induction ds generalizing s with
  | nil => rfl
  | cons d ds ih =>
    have hs := Nat.lt_of_le_of_lt (le_foldl_digits ds (s * 10 + (d.toNat - '0'.toNat))) h
    simp only [absorb]
    rw [if_pos hs]
    exact ih _ h

theorem absorb_toDigits {n : Nat} (h : n < Nat.pow 2 64) : absorb 0 (Nat.toDigits 10 n) = (n, 0) := by
  have e : (Nat.toDigits 10 n).foldl (fun n c => n * 10 + (c.toNat - '0'.toNat)) 0 = n := ofDigits_toDigits n
  rw [absorb_of_lt _ _ (by rw [e]; exact h), e]

/-! ## Numbers -/

def Stops (rest : List Char) : Prop :=
  ∀ c ∈ rest.head?, c.isDigit = false ∧ c ≠ '.' ∧ c ≠ 'e' ∧ c ≠ 'E'

theorem stops_nil : Stops [] := by
  intro c hc; cases hc

theorem stops_cons {c : Char} (h : c = ',' ∨ c = ']' ∨ c = closeBrace) (rest : List Char) : Stops (c :: rest) := by
  intro d hd
  obtain rfl : c = d := by simpa using hd
  rcases h with rfl | rfl | rfl <;> decide

section
variable {n : Nat} {rest : List Char} (hr : Stops rest)
include hr

theorem takeWhile_toDigits : (Nat.toDigits 10 n ++ rest).takeWhile Char.isDigit = Nat.toDigits 10 n := by
  rw [List.takeWhile_append_of_pos fun c hc => isDigit_of_mem_toDigits hc]
  cases rest with
  | nil => simp
  | cons c rest => simp [(hr c (by simp)).1]

theorem dropWhile_toDigits : (Nat.toDigits 10 n ++ rest).dropWhile Char.isDigit = rest := by
  rw [List.dropWhile_append_of_pos fun c hc => isDigit_of_mem_toDigits hc]
  cases rest with
  | nil => rfl
  | cons c rest => simp [(hr c (by simp)).1]

theorem whole?_toDigits : whole? (Nat.toDigits 10 n ++ rest) = some (Nat.toDigits 10 n, rest) := by
  unfold whole?
  rw [takeWhile_toDigits hr, dropWhile_toDigits hr]
  split
  · rename_i h; exact absurd h Nat.toDigits_ne_nil
  · rename_i h; rw [h]
  · rename_i ds hne h
    exact absurd (toDigits_eq_zero_cons h) hne
  · rfl

theorem fraction?_of_stops : fraction? rest = some (none, rest) := by
  unfold fraction?
  split
  · rename_i cs; exact absurd rfl (hr '.' (by simp)).2.1
  · rfl

theorem exponent?_of_stops : exponent? rest = some (none, rest) := by
  cases rest with
  | nil => rfl
  | cons c rest =>
    obtain ⟨-, -, he, hE⟩ := hr c (by simp)
    exact if_neg (by simp [he, hE])

theorem readNumber_toDigits (negative : Bool) : readNumber negative (Nat.toDigits 10 n ++ rest) =
    (number? negative (Nat.toDigits 10 n) none none).map (·, rest) := by
  simp only [readNumber, whole?_toDigits hr, fraction?_of_stops hr, exponent?_of_stops hr, Option.bind_eq_bind,
    Option.bind_some]
  cases number? negative (Nat.toDigits 10 n) none none <;> rfl

theorem readNumber_natural (h : n < Nat.pow 2 64) :
    readNumber false (Nat.toDigits 10 n ++ rest) = some (.int n, rest) := by
  rw [readNumber_toDigits hr, number?, absorb_toDigits h]
  rfl

theorem readNumber_negative (h : n < Nat.pow 2 63) :
    readNumber true (Nat.toDigits 10 (n + 1) ++ rest) = some (.int (Int.negSucc n), rest) := by
  have h63 : Nat.pow 2 63 < Nat.pow 2 64 := by decide
  rw [readNumber_toDigits hr, number?, absorb_toDigits (by omega)]
  have hn : 0 < n + 1 ∧ n + 1 ≤ Nat.pow 2 63 := by omega
  simp [hn, Int.negSucc_eq]

end

end Json

end Liaison
