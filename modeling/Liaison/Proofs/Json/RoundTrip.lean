import Liaison.Proofs.Json.Integer
import Liaison.Proofs.Text.Utf8

/-!
# Reading JSON back

The compact text of a value without doubles is read as exactly that value, if its integers fit into 64
bits and it is not nested too deep. Strings may hold any characters at all.
-/

namespace Liaison

namespace Json

/-! ## Strings -/

theorem hexDigit?_digitChar : ∀ d < 16, hexDigit? (Nat.digitChar d) = some d := by
  decide

theorem escape?_control {c : Char} (h : c.toNat < 0x20) (rest : List Char) :
    escape? ('u' :: '0' :: '0' :: Nat.digitChar (c.toNat / 16) :: Nat.digitChar (c.toNat % 16) :: rest) =
      some (c, rest) := by
  have hz : hexDigit? '0' = some 0 := rfl
  have h₁ := hexDigit?_digitChar (c.toNat / 16) (by omega)
  have h₂ := hexDigit?_digitChar (c.toNat % 16) (by omega)
  have e : ((0 * 16 + 0) * 16 + c.toNat / 16) * 16 + c.toNat % 16 = c.toNat := by omega
  simp only [escape?, unicodeEscape?, hex4?, hz, h₁, h₂, Option.bind_eq_bind, Option.bind_some, Option.pure_def, e]
  rw [if_neg (by omega), if_neg (by omega), Char.ofNat_toNat]

theorem eq_of_toNat {c d : Char} (h : c.toNat = d.toNat) : c = d := by
  rw [← Char.ofNat_toNat c, h, Char.ofNat_toNat]

theorem readChars_escape (c : Char) (fuel : Nat) (rest : List Char) :
    readChars (fuel + 1) (escape c ++ rest) = (readChars fuel rest).map fun r => (c :: r.1, r.2) := by
  unfold escape
  split
  · subst_vars; rfl
  split
  · subst_vars; rfl
  split
  · subst_vars; rfl
  split
  · subst_vars; rfl
  split
  · subst_vars; rfl
  split
  · rename_i h
    obtain rfl : c = '\x08' := eq_of_toNat h
    rfl
  split
  · rename_i h
    obtain rfl : c = '\x0c' := eq_of_toNat h
    rfl
  split
  · rename_i h
    simp only [List.cons_append, List.nil_append, readChars, escape?_control h]
  · rename_i hq hb _ _ _ _ _ h
    rw [List.cons_append, List.nil_append, readChars]
    · rw [if_neg h]
    · exact hq
    · exact hb

theorem readChars_flatMap_escape (cs : List Char) (rest : List Char) {fuel : Nat} (h : cs.length < fuel) :
    readChars fuel (cs.flatMap escape ++ '"' :: rest) = some (cs, rest) := by
  induction cs generalizing fuel with
  | nil =>
    obtain ⟨fuel, rfl⟩ : ∃ k, fuel = k + 1 := ⟨fuel - 1, by omega⟩
    rfl
  | cons c cs ih =>
    obtain ⟨fuel, rfl⟩ : ∃ k, fuel = k + 1 := ⟨fuel - 1, by omega⟩
    simp only [List.length_cons] at h
    rw [List.flatMap_cons, List.append_assoc, readChars_escape, ih (by omega)]
    rfl

theorem length_escape_pos (c : Char) : 0 < (escape c).length := by
  unfold escape
  repeat' split
  all_goals simp

theorem length_le_flatMap_escape (cs : List Char) : cs.length ≤ (cs.flatMap escape).length := by
  induction cs with
  | nil => exact Nat.le_refl _
  | cons c cs ih =>
    have := length_escape_pos c
    simp only [List.flatMap_cons, List.length_append, List.length_cons]
    omega

theorem readString_print (s : String) (rest : List Char) :
    readString (s.toList.flatMap escape ++ '"' :: rest) = some (s, rest) := by
  have h := length_le_flatMap_escape s.toList
  rw [readString, readChars_flatMap_escape _ _ (by simp only [List.length_append, List.length_cons]; omega)]
  simp

/-! ## Scalars -/

theorem skipGap_cons {c : Char} (h : isGap c = false) (cs : List Char) : skipGap (c :: cs) = c :: cs := by
  rw [skipGap, List.dropWhile_cons_of_neg (by simp [h])]

theorem readValue_scalar {c : Char} (hg : isGap c = false) (ha : c ≠ '[') (ho : c.toNat ≠ 0x7B) (cs : List Char) :
    ∀ depth, readValue depth (c :: cs) = readScalar (c :: cs)
  | 0 => by rw [readValue, skipGap_cons hg]
  | depth + 1 => by
    rw [readValue, skipGap_cons hg]
    split
    · rename_i h; exact absurd (List.cons.inj h).1 ha
    · rename_i h
      obtain ⟨rfl, rfl⟩ := List.cons.inj h
      exact if_neg ho
    · rename_i h; cases h

theorem isGap_digit {c : Char} (h : c.isDigit = true) : isGap c = false := by
  simp [isGap, ne_of_isDigit h]

theorem readValue_digit {c : Char} (h : c.isDigit = true) (cs : List Char) (depth : Nat) :
    readValue depth (c :: cs) = readNumber false (c :: cs) := by
  have ho : c.toNat ≠ 0x7B := fun e => ne_of_isDigit h (d := openBrace) (by decide) (eq_of_toNat e)
  rw [readValue_scalar (isGap_digit h) (ne_of_isDigit h (by decide)) ho]
  unfold readScalar
  split
  all_goals first
    | rename_i e; exact absurd (List.cons.inj e).1 (ne_of_isDigit h (by decide))
    | rfl

theorem readValue_minus (cs : List Char) (depth : Nat) : readValue depth ('-' :: cs) = readNumber true cs := by
  rw [readValue_scalar (by decide) (by decide) (by decide)]
  rfl

theorem readValue_quote (cs : List Char) (depth : Nat) :
    readValue depth ('"' :: cs) = (readString cs).map fun r => (str r.1, r.2) := by
  rw [readValue_scalar (by decide) (by decide) (by decide)]
  rfl

/-! ## Values without doubles -/

mutual

/-- Every number within is an integer of 64 bits, with or without a sign. -/
def Whole : Json → Prop
  | .int n => -0x8000000000000000 ≤ n ∧ n ≤ 0xFFFFFFFFFFFFFFFF
  | .float _ => False
  | .arr items => WholeItems items
  | .obj members => WholeMembers members
  | _ => True

def WholeItems : List Json → Prop
  | [] => True
  | v :: rest => Whole v ∧ WholeItems rest

def WholeMembers : List (String × Json) → Prop
  | [] => True
  | (_, v) :: rest => Whole v ∧ WholeMembers rest

end

theorem readValue_printInt {n : Int} (h : -0x8000000000000000 ≤ n ∧ n ≤ 0xFFFFFFFFFFFFFFFF) {rest : List Char}
    (hr : Stops rest) (depth : Nat) : readValue depth (printInt n ++ rest) = some (.int n, rest) := by
  cases n with
  | ofNat n =>
    simp only [Int.ofNat_eq_natCast] at h
    rw [printInt]
    cases hd : Nat.toDigits 10 n with
    | nil => exact absurd hd Nat.toDigits_ne_nil
    | cons d ds =>
      rw [List.cons_append, readValue_digit (isDigit_of_mem_toDigits (hd ▸ List.mem_cons_self)), ← List.cons_append,
        ← hd, readNumber_natural hr (by simp only [Nat.pow_eq]; omega)]
      rfl
  | negSucc n =>
    rw [printInt, List.cons_append, readValue_minus, readNumber_negative hr (by simp only [Nat.pow_eq]; omega)]

theorem readValue_printString (s : String) (rest : List Char) (depth : Nat) :
    readValue depth (printString s ++ rest) = some (.str s, rest) := by
  rw [printString, List.append_assoc, List.cons_append, readValue_quote, List.singleton_append, readString_print]
  rfl

/-! ## Objects -/

theorem insert_of_lt {k : String} {v : Json} {t : Table String Json} (h : ∀ m ∈ t, m.1 < k) :
    Table.insert k v t = t ++ [(k, v)] := by
  induction t with
  | nil => rfl
  | cons m t ih =>
    have hm : m.1 < k := h m List.mem_cons_self
    rw [Table.insert, if_neg (String.lt_asymm hm), if_neg (String.ne_of_lt hm).symm,
      ih fun m' hm' => h m' (List.mem_cons_of_mem _ hm')]
    rfl

theorem foldl_insert_of_pairwise (ms : List (String × Json)) (t : Table String Json)
    (h : ((t ++ ms).map (·.1)).Pairwise (· < ·)) :
    ms.foldl (fun t m => Table.insert m.1 m.2 t) t = t ++ ms := by
  induction ms generalizing t with
  | nil => rw [List.foldl_nil, List.append_nil]
  | cons m ms ih =>
    have hm : ∀ m' ∈ t, m'.1 < m.1 := by
      intro m' hm'
      rw [List.map_append, List.pairwise_append] at h
      exact h.2.2 _ (List.mem_map_of_mem hm') _ List.mem_cons_self
    rw [List.foldl_cons, insert_of_lt hm, ih _ (by rwa [List.append_assoc]), List.append_assoc]
    rfl

theorem ofMembers_of_pairwise {ms : List (String × Json)} (h : (ms.map (·.1)).Pairwise (· < ·)) :
    ofMembers ms = .obj ms := by
  rw [ofMembers, Table.ofList, foldl_insert_of_pairwise ms [] h, List.nil_append]

theorem readMember_print {item : List Char → Option (Json × List Char)} (name : String) {v : Json}
    {text rest : List Char} (h : item text = some (v, rest)) :
    readMember item (printString name ++ ':' :: text) = some ((name, v), rest) := by
  unfold readMember
  rw [printString, List.append_assoc, List.cons_append, skipGap_cons (by decide), List.singleton_append]
  simp only [readString_print]
  rw [skipGap_cons (by decide)]
  simp only [h, Option.map_some]

/-! ## Values -/

theorem length_printItems : ∀ items : List Json, items.length ≤ (printItems items).length + 1
  | [] => Nat.zero_le _
  | [_] => Nat.succ_le_succ (Nat.zero_le _)
  | v :: w :: rest => by
    have := length_printItems (w :: rest)
    simp only [printItems, List.length_append, List.length_cons] at this ⊢
    omega

theorem length_printMembers : ∀ ms : List (String × Json), ms.length ≤ (printMembers ms).length + 1
  | [] => Nat.zero_le _
  | [_] => Nat.succ_le_succ (Nat.zero_le _)
  | (_, _) :: m :: rest => by
    have := length_printMembers (m :: rest)
    simp only [printMembers, List.length_append, List.length_cons] at this ⊢
    omega

/-- No text of a value starts with a blank or the end of an array. -/
theorem print_head (v : Json) (hw : Whole v) : ∃ c cs, print v = c :: cs ∧ isGap c = false ∧ c ≠ ']' := by
  cases v with
  | null | arr | obj | str => exact ⟨_, _, rfl, by decide, by decide⟩
  | bool b => cases b <;> exact ⟨_, _, rfl, by decide, by decide⟩
  | float x => cases hw
  | int n =>
    cases n with
    | negSucc n => exact ⟨_, _, rfl, by decide, by decide⟩
    | ofNat n =>
      rw [print, printInt]
      cases hd : Nat.toDigits 10 n with
      | nil => exact absurd hd Nat.toDigits_ne_nil
      | cons d ds =>
        have h := isDigit_of_mem_toDigits (hd ▸ List.mem_cons_self)
        exact ⟨d, ds, rfl, isGap_digit h, ne_of_isDigit h (by decide)⟩

section
variable {item : List Char → Option (Json × List Char)}

theorem readItems_print {items : List Json}
    (h : ∀ v ∈ items, ∀ rest, Stops rest → item (v.print ++ rest) = some (v, rest)) (hne : items ≠ []) {fuel : Nat}
    (hf : items.length ≤ fuel) (rest : List Char) :
    readItems item fuel (printItems items ++ ']' :: rest) = some (items, rest) := by
  induction items generalizing fuel with
  | nil => exact absurd rfl hne
  | cons v items ih =>
    simp only [List.length_cons] at hf
    obtain ⟨fuel, rfl⟩ : ∃ k, fuel = k + 1 := ⟨fuel - 1, by omega⟩
    cases items with
    | nil =>
      rw [printItems, readItems, h v (by simp) _ (stops_cons (by simp) rest)]
      simp only [skipGap_cons (show isGap ']' = false by decide)]
    | cons w items =>
      have hl : (w :: items).length ≤ fuel := by simpa using hf
      have ih := ih (fun u hu => h u (List.mem_cons_of_mem _ hu)) (by simp) hl
      rw [printItems, List.append_assoc, List.cons_append, readItems, h v (by simp) _ (stops_cons (by simp) _)]
      simp only [skipGap_cons (show isGap ',' = false by decide), ih, Option.map_some]

theorem readMembers_print {ms : List (String × Json)}
    (h : ∀ m ∈ ms, ∀ rest, Stops rest → item (m.2.print ++ rest) = some (m.2, rest))
    (hne : ms ≠ []) {fuel : Nat} (hf : ms.length ≤ fuel) (rest : List Char) :
    readMembers item fuel (printMembers ms ++ closeBrace :: rest) = some (ms, rest) := by
  induction ms generalizing fuel with
  | nil => exact absurd rfl hne
  | cons m ms ih =>
    simp only [List.length_cons] at hf
    obtain ⟨fuel, rfl⟩ : ∃ k, fuel = k + 1 := ⟨fuel - 1, by omega⟩
    cases ms with
    | nil =>
      have hv := h m (by simp) (closeBrace :: rest) (stops_cons (by simp) rest)
      rw [printMembers, List.append_assoc, List.cons_append, readMembers, readMember_print m.1 hv]
      simp only [skipGap_cons (show isGap closeBrace = false by decide)]
      rfl
    | cons m' ms =>
      have hl : (m' :: ms).length ≤ fuel := by simpa using hf
      have ih := ih (fun u hu => h u (List.mem_cons_of_mem _ hu)) (by simp) hl
      have hv := h m (by simp) (',' :: (printMembers (m' :: ms) ++ closeBrace :: rest)) (stops_cons (by simp) _)
      rw [printMembers, List.append_assoc, List.append_assoc, List.cons_append, List.cons_append, readMembers,
        readMember_print m.1 hv]
      simp only [skipGap_cons (show isGap ',' = false by decide), ih, Option.map_some]

theorem readArray_print {items : List Json} (hw : WholeItems items)
    (h : ∀ v ∈ items, ∀ rest, Stops rest → item (v.print ++ rest) = some (v, rest)) (rest : List Char) :
    readArray item (printItems items ++ ']' :: rest) = some (.arr items, rest) := by
  cases items with
  | nil =>
    rw [readArray, printItems, List.nil_append, skipGap_cons (by decide)]
    rfl
  | cons v items =>
    have hlen := length_printItems (v :: items)
    obtain ⟨c, cs, hc, hg, hb⟩ : ∃ c cs, printItems (v :: items) ++ ']' :: rest = c :: cs ∧
        isGap c = false ∧ c ≠ ']' := by
      obtain ⟨c, cs, hc, hg, hb⟩ := print_head v hw.1
      cases items <;> exact ⟨c, _, by rw [printItems, hc]; rfl, hg, hb⟩
    have hf : (v :: items).length ≤ (c :: cs).length := by
      rw [← hc, List.length_append, List.length_cons (a := ']')]
      omega
    have hi := readItems_print h (by simp) hf rest
    rw [hc] at hi ⊢
    rw [readArray, skipGap_cons hg]
    split
    · rename_i e; exact absurd (List.cons.inj e).1 hb
    · rw [hi]; rfl

theorem readObject_print {ms : List (String × Json)} (hp : (ms.map (·.1)).Pairwise (· < ·))
    (h : ∀ m ∈ ms, ∀ rest, Stops rest → item (m.2.print ++ rest) = some (m.2, rest)) (rest : List Char) :
    readObject item (printMembers ms ++ closeBrace :: rest) = some (.obj ms, rest) := by
  cases ms with
  | nil =>
    rw [readObject, printMembers, List.nil_append, skipGap_cons (by decide)]
    rfl
  | cons m ms =>
    have hlen := length_printMembers (m :: ms)
    obtain ⟨cs, hc⟩ : ∃ cs, printMembers (m :: ms) ++ closeBrace :: rest = '"' :: cs := by
      cases ms <;> exact ⟨_, by rw [printMembers, printString]; rfl⟩
    have hf : (m :: ms).length ≤ ('"' :: cs).length := by
      rw [← hc, List.length_append, List.length_cons (a := closeBrace)]
      omega
    have hi := readMembers_print h (by simp) hf rest
    rw [hc] at hi ⊢
    rw [readObject, skipGap_cons (by decide)]
    simp only [if_neg (show '"'.toNat ≠ 0x7D by decide), hi, Option.map_some, ofMembers_of_pairwise hp]

end

mutual

theorem readValue_print : ∀ {v : Json} {depth : Nat}, v.Normal → v.Whole → v.depth ≤ depth →
    ∀ rest, Stops rest → readValue depth (v.print ++ rest) = some (v, rest)
  | .null, depth, _, _, _, rest, _ => by
    rw [print, List.cons_append, readValue_scalar (by decide) (by decide) (by decide)]; rfl
  | .bool true, depth, _, _, _, rest, _ => by
    rw [print, List.cons_append, readValue_scalar (by decide) (by decide) (by decide)]; rfl
  | .bool false, depth, _, _, _, rest, _ => by
    rw [print, List.cons_append, readValue_scalar (by decide) (by decide) (by decide)]; rfl
  | .int n, depth, _, hw, _, rest, hr => readValue_printInt hw hr depth
  | .float _, _, _, hw, _, _, _ => hw.elim
  | .str s, depth, _, _, _, rest, _ => readValue_printString s rest depth
  | .arr items, 0, _, _, hd, _, _ => by simp only [Json.depth] at hd; omega
  | .obj members, 0, _, _, hd, _, _ => by simp only [Json.depth] at hd; omega
  | .arr items, depth + 1, hn, hw, hd, rest, _ => by
    simp only [Json.depth, Nat.add_le_add_iff_right] at hd
    rw [print, List.append_assoc, List.cons_append, readValue, skipGap_cons (by decide), List.singleton_append]
    exact readArray_print hw (readValue_printItems hn hw hd) rest
  | .obj members, depth + 1, hn, hw, hd, rest, _ => by
    simp only [Json.depth, Nat.add_le_add_iff_right] at hd
    rw [print, List.append_assoc, List.cons_append, readValue, skipGap_cons (by decide), List.singleton_append]
    exact readObject_print hn.1 (readValue_printMembers hn.2 hw hd) rest

theorem readValue_printItems : ∀ {items : List Json} {depth : Nat}, NormalItems items → WholeItems items →
    depthItems items ≤ depth →
    ∀ v ∈ items, ∀ rest, Stops rest → readValue depth (v.print ++ rest) = some (v, rest)
  | [], _, _, _, _, _, hv => by cases hv
  | w :: items, depth, hn, hw, hd, v, hv => by
    simp only [depthItems] at hd
    rcases List.mem_cons.mp hv with e | hv
    · rw [e]; exact readValue_print hn.1 hw.1 (by omega)
    · exact readValue_printItems hn.2 hw.2 (by omega) v hv

theorem readValue_printMembers : ∀ {ms : List (String × Json)} {depth : Nat}, NormalMembers ms →
    WholeMembers ms → depthMembers ms ≤ depth →
    ∀ m ∈ ms, ∀ rest, Stops rest → readValue depth (m.2.print ++ rest) = some (m.2, rest)
  | [], _, _, _, _, _, hm => by cases hm
  | (_, v) :: ms, depth, hn, hw, hd, m, hm => by
    simp only [depthMembers] at hd
    rcases List.mem_cons.mp hm with e | hm
    · rw [e]; exact readValue_print (v := v) hn.1 hw.1 (by omega)
    · exact readValue_printMembers hn.2 hw.2 (by omega) m hm

end

theorem parse?_print {v : Json} (hn : v.Normal) (hw : v.Whole) (hd : v.depth ≤ maxDepth) :
    parse? v.print = some v := by
  have h := readValue_print hn hw hd [] stops_nil
  rw [List.append_nil] at h
  rw [parse?, h]
  rfl

theorem ofBytes?_toBytes {v : Json} (hn : v.Normal) (hw : v.Whole) (hd : v.depth ≤ maxDepth) :
    ofBytes? v.toBytes = some v := by
  rw [ofBytes?, toBytes, Utf8.decode?_encode, Option.bind_some, parse?_print hn hw hd]

end Json

end Liaison
