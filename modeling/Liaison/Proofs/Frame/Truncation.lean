import Liaison.Proofs.Frame.RoundTrip

/-!
# Streams that were cut off

A stream of frames may end at any byte. What was there in full is read as it was written, and then the stream has
ended, if it was cut between two frames, or else it is at fault. A line that was cut off is read like any line, so
that the start of a length, or half of a blank line, is taken for a whole one; but the stream then ends before the
frame does.
-/

namespace Liaison

namespace Frame

/-! ## Lines that were cut off -/

section
variable {text : Bytes} (ht : 0x0A ∉ text) (announced : Announced)
include ht

theorem takeLine_of_not_mem : takeLine text = (text, []) := by
  induction text with
  | nil => rfl
  | cons b text ih =>
    simp only [List.mem_cons, not_or] at ht
    rw [takeLine, if_neg (Ne.symm ht.1), ih ht.2]

theorem readHeaders_text (started : Bool) (hb : isBlankText (Utf8.decodeLossy text) = false) :
    readHeaders started announced text = (.cut, []) := by
  have hne : text ≠ [] := by
    rintro rfl
    simp [Utf8.decodeLossy, isBlankText] at hb
  rw [readHeaders, dif_neg hne]
  simp only [takeLine_of_not_mem ht, trim_isEmpty, hb]
  exact readHeaders_nil true _

theorem readHeaders_blankText (hne : text ≠ []) (hb : isBlankText (Utf8.decodeLossy text) = true) :
    readHeaders true announced text = (.blankLine announced, []) := by
  rw [readHeaders, dif_neg hne]
  simp only [takeLine_of_not_mem ht, trim_isEmpty, hb]
  rfl

end

/-! ## Frames that were cut off -/

/-- The line of the length has its line feed at the end and begins with a letter. -/
theorem lengthLine_eq_cons (n : Nat) : ∃ text, lengthLine n = 0x43 :: text ++ [0x0A] ∧ 0x0A ∉ 0x43 :: text := by
  obtain ⟨cs, hc⟩ : ∃ cs, lengthText n ++ ['\r'] = 'C' :: cs := ⟨_, rfl⟩
  have he : Utf8.encode (lengthText n ++ ['\r']) = 0x43 :: Utf8.encode cs := by
    rw [hc, Utf8.encode_cons]
    rfl
  exact ⟨Utf8.encode cs, by rw [lengthLine_eq, he], he ▸ newline_not_mem_lengthText n⟩

theorem readHeaders_of_prefix_lengthLine {n : Nat} {part : Bytes} (hp : part <+: lengthLine n) (hne : part ≠ [])
    (hlt : part.length < (lengthLine n).length) : readHeaders false .nothing part = (.cut, []) := by
  obtain ⟨text, he, hm⟩ := lengthLine_eq_cons n
  have htext : part <+: 0x43 :: text := by
    rw [he, List.prefix_concat_iff, ← he] at hp
    rcases hp with rfl | hp
    · exact absurd hlt (Nat.lt_irrefl _)
    · exact hp
  obtain ⟨b, rest, rfl⟩ := List.exists_cons_of_ne_nil hne
  obtain rfl : b = 0x43 := (List.cons_prefix_cons.mp htext).1
  apply readHeaders_text fun h => hm (htext.subset h)
  -- the first letter is there, so that it does not matter how the others are read
  rw [Utf8.decodeLossy, Utf8.readChar_ascii (by decide)]
  rfl

theorem readBody_of_lt {n : Nat} {bs : Bytes} (h : bs.length < n) : ∃ cut, (readBody n bs).1 = .fault cut := by
  unfold readBody
  rw [if_pos h, if_pos h]
  split
  · exact ⟨_, rfl⟩
  · exact ⟨_, rfl⟩

/-- Behind the line of the length: nothing, half of the blank line, or all of it and a part of the body. -/
theorem read_lengthLine_append {n : Nat} (hn : n < Nat.pow 2 64) {body rest : Bytes} (hb : body ≠ [])
    (hr : rest <+: 0x0D :: 0x0A :: body) (hlt : rest.length < body.length + 2) (hle : body.length ≤ n) :
    ∃ cut, (read (lengthLine n ++ rest)).1 = .fault cut := by
  have hread : readHeaders false .nothing ([] ++ (lengthLine n ++ rest)) = readHeaders true (.length n) rest :=
    readHeaders_lengthLine (by simp) (by decide) hn false rest
  rw [List.nil_append] at hread
  rw [read, hread]
  rcases rest with _ | ⟨b, _ | ⟨b', rest⟩⟩
  · rw [readHeaders_nil]
    exact ⟨.headers, rfl⟩
  · rw [List.cons_prefix_cons] at hr
    rw [hr.1, readHeaders_blankText (by decide) _ (by simp) (by decide +kernel)]
    exact readBody_of_lt (Nat.lt_of_lt_of_le (List.length_pos_iff.mpr hb) hle)
  · rw [List.cons_prefix_cons, List.cons_prefix_cons] at hr
    rw [hr.1, hr.2.1]
    have hblank : readHeaders true (.length n) ([0x0D] ++ 0x0A :: rest) = (.blankLine (.length n), rest) :=
      readHeaders_blank (by decide) true _ rest (by decide +kernel)
    rw [List.singleton_append] at hblank
    rw [hblank]
    simp only [List.length_cons] at hlt
    exact readBody_of_lt (by omega)

/-- A frame that has begun and is not there in full is a fault. -/
theorem read_of_prefix {body part : Bytes} (hn : body.length < Nat.pow 2 64) (hb : body ≠ [])
    (hp : part <+: ofBody body) (hne : part ≠ []) (hlt : part.length < (ofBody body).length) :
    ∃ cut, (read part).1 = .fault cut := by
  have e : ofBody body = lengthLine body.length ++ (0x0D :: 0x0A :: body) := by
    rw [ofBody, header_eq_block, block, List.flatten_nil, List.append_nil, List.append_assoc]
    rfl
  rw [e] at hp hlt
  rcases Nat.lt_or_ge part.length (lengthLine body.length).length with h | h
  · have hline := List.prefix_of_prefix_length_le hp (List.prefix_append _ _) (Nat.le_of_lt h)
    exact ⟨.headers, by rw [read, readHeaders_of_prefix_lengthLine hline hne h]⟩
  · obtain ⟨rest, rfl⟩ := List.prefix_of_prefix_length_le (List.prefix_append _ _) hp h
    rw [List.prefix_append_right_inj] at hp
    simp only [List.length_append, List.length_cons] at hlt
    exact read_lengthLine_append hn hb hp (by omega) (Nat.le_refl _)

/-! ## Streams that were cut off -/

/-- How far the first frames of a stream reach, so many of them. -/
def reach (vs : List Json) (count : Nat) : Nat :=
  ((vs.take count).flatMap write).length

theorem reach_zero (vs : List Json) : reach vs 0 = 0 := by
  simp [reach]

theorem reach_cons_succ (v : Json) (vs : List Json) (count : Nat) :
    reach (v :: vs) (count + 1) = (write v).length + reach vs count := by
  simp [reach]

theorem toBytes_ne_nil {v : Json} (hw : v.Whole) : v.toBytes ≠ [] := by
  obtain ⟨c, cs, hc, -⟩ := Json.print_head v hw
  obtain ⟨b, bs, hb, -⟩ := Utf8.readChar_encodeChar c
  rw [Json.toBytes, hc, Utf8.encode_cons, hb, List.cons_append]
  exact List.cons_ne_nil _ _

theorem readAll_of_prefix_write {v : Json} (h : Sendable v) {part : Bytes} (hp : part <+: write v) (hne : part ≠ [])
    (hlt : part.length < (write v).length) : ∃ cut, readAll part = [.fault cut] := by
  have hl : v.toBytes.length < Nat.pow 2 64 := Nat.lt_of_le_of_lt h.length (by decide)
  obtain ⟨cut, hc⟩ := read_of_prefix hl (toBytes_ne_nil h.whole) hp hne hlt
  exact ⟨cut, by rw [readAll, hc]; rfl⟩

/-- Nothing but a part of the first frame is there, if anything. -/
theorem readAll_take_write {v : Json} (h : Sendable v) {position : Nat} (hlt : position < (write v).length) :
    ∃ cut, readAll ((write v).take position) = [if position = 0 then .ended else .fault cut] := by
  by_cases h0 : position = 0
  · subst h0
    exact ⟨.headers, readAll_nil⟩
  · have hlen : ((write v).take position).length = position := List.length_take_of_le (Nat.le_of_lt hlt)
    have hne : (write v).take position ≠ [] := by
      intro e
      rw [e] at hlen
      exact h0 hlen.symm
    obtain ⟨cut, hc⟩ := readAll_of_prefix_write h (List.take_prefix position _) hne (hlen.symm ▸ hlt)
    exact ⟨cut, by rw [hc, if_neg h0]⟩

/-- A stream of frames that was cut off at any position: the values of the frames that lie in front of it are read,
and then the stream has ended if it was cut behind the last of them, or else it is at fault. -/
theorem readAll_take_flatMap_write (vs : List Json) (h : ∀ v ∈ vs, Sendable v) (position : Nat)
    (hp : position ≤ (vs.flatMap write).length) :
    ∃ count ≤ vs.length, (∀ k ≤ vs.length, reach vs k ≤ position ↔ k ≤ count) ∧
      ∃ cut, readAll ((vs.flatMap write).take position) =
        (vs.take count).map .frame ++ [if reach vs count = position then .ended else .fault cut] := by
  induction vs generalizing position with
  | nil =>
    obtain rfl : position = 0 := by simpa using hp
    exact ⟨0, Nat.le_refl _, by simp [reach], .headers, readAll_nil⟩
  | cons v vs ih =>
    have hv := h v List.mem_cons_self
    rw [List.flatMap_cons] at hp ⊢
    rcases Nat.lt_or_ge position (write v).length with hlt | hle
    · obtain ⟨cut, hc⟩ := readAll_take_write hv hlt
      refine ⟨0, Nat.zero_le _, ?_, cut, ?_⟩
      · intro k hk
        cases k with
        | zero => simp [reach_zero]
        | succ k =>
          rw [reach_cons_succ]
          omega
      · rw [List.take_append_of_le_length (Nat.le_of_lt hlt), hc]
        simp [reach_zero, eq_comm]
    · obtain ⟨rest, rfl⟩ := Nat.exists_eq_add_of_le hle
      rw [List.length_append, Nat.add_le_add_iff_left] at hp
      obtain ⟨count, hcount, hreach, cut, hread⟩ := ih (fun w hw => h w (List.mem_cons_of_mem _ hw)) rest hp
      refine ⟨count + 1, Nat.succ_le_succ hcount, ?_, cut, ?_⟩
      · intro k hk
        cases k with
        | zero => simp [reach_zero]
        | succ k =>
          rw [reach_cons_succ, Nat.add_le_add_iff_left, hreach k (Nat.le_of_succ_le_succ hk), Nat.succ_le_succ_iff]
      · rw [List.take_length_add_append, readAll_write hv, hread]
        simp only [reach_cons_succ, Nat.add_left_cancel_iff, List.take_succ_cons, List.map_cons, List.cons_append]

/-- The second frame was cut off in the middle of its blank line. -/
theorem readAll_take_flatMap_write_halfLine :
    45 ≤ ([.arr [.int 1], .str "\r\n\r\n"].flatMap write).length ∧
      ∃ cut, readAll (([.arr [.int 1], .str "\r\n\r\n"].flatMap write).take 45) =
        [.frame (.arr [.int 1]), .fault cut] := by
  have h₁ : Sendable (.arr [.int 1]) :=
    ⟨⟨trivial, trivial⟩, ⟨⟨by decide, by decide⟩, trivial⟩, by decide, by decide +kernel⟩
  have h₂ : Sendable (.str "\r\n\r\n") := ⟨trivial, trivial, by decide, by decide +kernel⟩
  have hp : 45 ≤ ([.arr [.int 1], .str "\r\n\r\n"].flatMap write).length := by decide +kernel
  obtain ⟨count, -, hcount, cut, hread⟩ := readAll_take_flatMap_write _ (by simpa using ⟨h₁, h₂⟩) 45 hp
  have hfirst : 1 ≤ count := (hcount 1 (by decide)).mp (by decide +kernel)
  have hsecond : ¬ 2 ≤ count := fun h => absurd ((hcount 2 (by decide)).mpr h) (by decide +kernel)
  obtain rfl : count = 1 := by omega
  rw [if_neg (by decide +kernel)] at hread
  exact ⟨hp, cut, hread⟩

end Frame

end Liaison
