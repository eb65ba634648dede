import Liaison.Proofs.Frame.Header
import Mathlib.Data.List.TakeWhile

/-!
# Finding the next frame

A frame is found behind whatever was left over before it, and reading goes on right behind its body,
whether or not the body can be used. What is left over costs blocks of header lines without a length.
-/

namespace Liaison

namespace Frame

/-! ## Lines -/

theorem takeLine_append_newline {text : Bytes} (h : 0x0A ∉ text) (rest : Bytes) :
    takeLine (text ++ 0x0A :: rest) = (text ++ [0x0A], rest) := by
  induction text with
  | nil => rfl
  | cons b text ih =>
    simp only [List.mem_cons, not_or] at h
    rw [List.cons_append, takeLine, if_neg (Ne.symm h.1), ih h.2]
    rfl

theorem trimEnd_isEmpty (cs : List Char) : (trimEnd cs).isEmpty = isBlankText cs := by
  rw [Bool.eq_iff_iff, List.isEmpty_iff, trimEnd, List.reverse_eq_nil_iff, List.dropWhile_eq_nil_iff,
    isBlankText, List.all_eq_true]
  simp only [List.mem_reverse]

theorem trim_isEmpty (cs : List Char) : (trim cs).isEmpty = isBlankText cs := by
  rw [trim, trimEnd_isEmpty]
  induction cs with
  | nil => rfl
  | cons c cs ih =>
    by_cases h : isBlank c = true
    · rw [List.dropWhile_cons_of_pos h, ih, isBlankText, isBlankText, List.all_cons, h, Bool.true_and]
    · rw [List.dropWhile_cons_of_neg h]

theorem readHeaders_nil (started : Bool) (announced : Announced) :
    readHeaders started announced [] = (if started then .cut else .ended, []) := by
  rw [readHeaders, dif_pos rfl]

section
variable {text : Bytes} (ht : 0x0A ∉ text) (started : Bool) (announced : Announced) (rest : Bytes)
include ht

theorem readHeaders_line (hb : isBlankText (Utf8.decodeLossy (text ++ [0x0A])) = false) :
    readHeaders started announced (text ++ 0x0A :: rest) =
      readHeaders true (announced.line (trim (Utf8.decodeLossy (text ++ [0x0A])))) rest := by
  rw [readHeaders, dif_neg (by simp)]
  simp only [takeLine_append_newline ht, trim_isEmpty, hb]
  rfl

theorem readHeaders_blank (hb : isBlankText (Utf8.decodeLossy (text ++ [0x0A])) = true) :
    readHeaders started announced (text ++ 0x0A :: rest) =
      if started then (.blankLine announced, rest) else readHeaders false announced rest := by
  rw [readHeaders, dif_neg (by simp)]
  simp only [takeLine_append_newline ht, trim_isEmpty, hb]
  rfl

end

/-! ## Blocks of header lines -/

def lengthLine (n : Nat) : Bytes :=
  Utf8.ofString "Content-Length: " ++ Utf8.encode (Nat.toDigits 10 n) ++ Utf8.ofString "\r\n"

/-- A header line that is not blank and says nothing about the length. -/
structure IsOtherLine (line : Bytes) : Prop where
  ends : ∃ text, line = text ++ [0x0A] ∧ 0x0A ∉ text
  notBlank : isBlankText (Utf8.decodeLossy line) = false
  silent : ¬ HoldsName line

def block (n : Nat) (others : List Bytes) : Bytes :=
  lengthLine n ++ others.flatten ++ Utf8.ofString "\r\n"

theorem header_eq_block (n : Nat) : header n = block n [] := by
  have e : Utf8.ofString "\r\n\r\n" = Utf8.ofString "\r\n" ++ Utf8.ofString "\r\n" := by decide
  rw [header, block, lengthLine, e, List.flatten_nil, List.append_nil, List.append_assoc _ (Utf8.ofString "\r\n")]

theorem lengthLine_eq (n : Nat) : lengthLine n = Utf8.encode (lengthText n ++ ['\r']) ++ [0x0A] := by
  have e : lengthText n = "Content-Length: ".toList ++ Nat.toDigits 10 n := rfl
  have e' : Utf8.ofString "\r\n" = Utf8.encode ['\r'] ++ [0x0A] := by decide
  rw [e, lengthLine, e', Utf8.encode_append, Utf8.encode_append, Utf8.ofString]
  simp only [List.append_assoc]

theorem newline_not_mem_encode {cs : List Char} (h : ∀ c ∈ cs, c.toNat < 0x80 ∧ c.toNat ≠ 0x0A) :
    0x0A ∉ Utf8.encode cs := by
  intro hm
  obtain ⟨c, hc, hb⟩ := List.mem_flatMap.mp hm
  obtain ⟨hlt, hne⟩ := h c hc
  rw [Utf8.encodeChar, if_pos hlt, List.mem_singleton] at hb
  have := congrArg UInt8.toNat hb
  rw [Utf8.toNat_toUInt8 (by omega)] at this
  exact hne this.symm

theorem newline_not_mem_lengthText (n : Nat) : 0x0A ∉ Utf8.encode (lengthText n ++ ['\r']) := by
  apply newline_not_mem_encode
  intro c hc
  rw [lengthText, List.mem_append, List.mem_append, List.mem_cons] at hc
  have hname : writtenName.all (fun c => c.toNat < 0x80 ∧ c.toNat ≠ 0x0A) = true := by decide
  rcases hc with (hc | rfl | hc) | hc
  · exact of_decide_eq_true (List.all_eq_true.mp hname c hc)
  · decide
  · have := toNat_of_isDigit (Json.isDigit_of_mem_toDigits hc)
    omega
  · obtain rfl := List.mem_singleton.mp hc
    decide

/-! ## Reading a block -/

theorem readHeaders_others {others : List Bytes} (h : ∀ line ∈ others, IsOtherLine line)
    (announced : Announced) (rest : Bytes) :
    readHeaders true announced (others.flatten ++ (Utf8.ofString "\r\n" ++ rest)) =
      (.blankLine announced, rest) := by
  induction others with
  | nil =>
    have e : [].flatten ++ (Utf8.ofString "\r\n" ++ rest) = [0x0D] ++ 0x0A :: rest := rfl
    rw [e, readHeaders_blank (by decide) _ _ _ (by decide +kernel)]
    rfl
  | cons line others ih =>
    obtain ⟨⟨text, rfl, ht⟩, hb, hs⟩ := h line List.mem_cons_self
    rw [List.flatten_cons, List.append_assoc, List.append_assoc, List.singleton_append, readHeaders_line ht _ _ _ hb,
      line_of_not_holdsName hs]
    exact ih fun l hl => h l (List.mem_cons_of_mem _ hl)

theorem readHeaders_lengthLine {left : Bytes} (hl : 0x0A ∉ left) (hs : ¬ HoldsName left) {n : Nat}
    (hn : n < Nat.pow 2 64) (started : Bool) (rest : Bytes) :
    readHeaders started .nothing (left ++ (lengthLine n ++ rest)) = readHeaders true (.length n) rest := by
  obtain ⟨cs, hc⟩ : ∃ cs, lengthText n ++ ['\r', '\n'] = 'C' :: cs := ⟨_, rfl⟩
  have hd : Utf8.decodeLossy (left ++ Utf8.encode (lengthText n ++ ['\r']) ++ [0x0A]) =
      Utf8.decodeLossy left ++ (lengthText n ++ ['\r', '\n']) := by
    have e : left ++ Utf8.encode (lengthText n ++ ['\r']) ++ [0x0A] =
        left ++ (Utf8.encode (lengthText n ++ ['\r', '\n']) ++ []) := by
      have e' : lengthText n ++ ['\r', '\n'] = (lengthText n ++ ['\r']) ++ ['\n'] := by simp
      rw [e', Utf8.encode_append (lengthText n ++ ['\r']), List.append_nil, List.append_assoc]
      rfl
    rw [e]
    have ea : Utf8.encode ('C' :: cs) ++ [] = 0x43 :: Utf8.encode cs := by
      rw [Utf8.encode_cons, List.append_nil]; rfl
    rw [hc, ea, Utf8.decodeLossy_append_ascii _ (by decide), ← ea, Utf8.decodeLossy_encode_append]
    simp [Utf8.decodeLossy]
  have hline := line_lengthText (not_lengthName_of_decodeLossy hs) hn .nothing
  have hnb : isBlankText (Utf8.decodeLossy left ++ (lengthText n ++ ['\r', '\n'])) = false := by
    rw [hc, isBlankText, List.all_append, List.all_cons]
    simp [show isBlank 'C' = false by decide]
  have e : left ++ (lengthLine n ++ rest) = (left ++ Utf8.encode (lengthText n ++ ['\r'])) ++ 0x0A :: rest := by
    rw [lengthLine_eq]; simp only [List.append_assoc, List.cons_append, List.nil_append]
  have hm : 0x0A ∉ left ++ Utf8.encode (lengthText n ++ ['\r']) := by
    simp only [List.mem_append, not_or]
    exact ⟨hl, by simpa using newline_not_mem_lengthText n⟩
  rw [e, readHeaders_line hm _ _ _ (by rw [hd]; exact hnb), hd, hline]

/-- With junk in front, reading the headers either comes to the block or ends at a blank line of the junk
that no length came before. -/
theorem readHeaders_junk {junk : Bytes} (hj : ¬ HoldsName junk) {n : Nat} (hn : n < Nat.pow 2 64)
    {others : List Bytes} (ho : ∀ line ∈ others, IsOtherLine line) (rest : Bytes) (started : Bool) :
    readHeaders started .nothing (junk ++ (block n others ++ rest)) = (.blankLine (.length n), rest) ∨
      ∃ left, left.length < junk.length ∧ ¬ HoldsName left ∧
        readHeaders started .nothing (junk ++ (block n others ++ rest)) =
          (.blankLine .nothing, left ++ (block n others ++ rest)) := by
  by_cases hm : 0x0A ∈ junk
  · obtain ⟨text, left, e, ht⟩ := List.eq_append_cons_of_mem hm
    have hlen : left.length < junk.length := by
      rw [e, List.length_append, List.length_cons]
      omega
    have hleft : ¬ HoldsName left := fun h =>
      hj (h.of_infix (e ▸ ((List.suffix_cons _ _).trans (List.suffix_append _ _)).isInfix))
    have htext : ¬ HoldsName (text ++ [0x0A]) := fun h =>
      hj (h.of_infix ⟨[], left, by rw [e]; simp⟩)
    have ih := readHeaders_junk hleft hn ho rest
    have e' : junk ++ (block n others ++ rest) = text ++ 0x0A :: (left ++ (block n others ++ rest)) := by
      rw [e, List.append_assoc, List.cons_append]
    rw [e']
    by_cases hb : isBlankText (Utf8.decodeLossy (text ++ [0x0A])) = true
    · rw [readHeaders_blank ht _ _ _ hb]
      cases started with
      | true => exact Or.inr ⟨left, hlen, hleft, rfl⟩
      | false =>
        rcases ih false with h | ⟨left', hl, hs, h⟩
        · exact Or.inl h
        · exact Or.inr ⟨left', Nat.lt_trans hl hlen, hs, h⟩
    · rw [readHeaders_line ht _ _ _ (by simpa using hb), line_of_not_holdsName htext]
      rcases ih true with h | ⟨left', hl, hs, h⟩
      · exact Or.inl h
      · exact Or.inr ⟨left', Nat.lt_trans hl hlen, hs, h⟩
  · left
    have e : junk ++ (block n others ++ rest) =
        junk ++ (lengthLine n ++ (others.flatten ++ (Utf8.ofString "\r\n" ++ rest))) := by
      simp only [block, List.append_assoc]
    rw [e, readHeaders_lengthLine hm hj hn, readHeaders_others ho]
termination_by junk.length
decreasing_by exact hlen

/-! ## Reading on -/

/-- What reading a body comes to that is there in full. -/
def bodyEvent (body : Bytes) : Event :=
  if maxLength < body.length then .malformed (.tooLong body.length)
  else
    match Json.ofBytes? body with
    | some v => .frame v
    | none => .malformed .invalidBody

theorem isLast_bodyEvent (body : Bytes) : (bodyEvent body).isLast = false := by
  unfold bodyEvent
  repeat' split
  all_goals rfl

theorem readBody_append (body rest : Bytes) : readBody body.length (body ++ rest) = (bodyEvent body, rest) := by
  have hlen : ¬ (body ++ rest).length < body.length := by
    rw [List.length_append]
    omega
  rw [readBody, bodyEvent, if_neg hlen, if_neg hlen, List.take_left, List.drop_left]
  split
  · rfl
  · cases Json.ofBytes? body <;> rfl

theorem readAll_of_read {bs rest : Bytes} {e : Event} (h : read bs = (e, rest)) (he : e.isLast = false) :
    readAll bs = e :: readAll rest := by
  rw [readAll, h]
  exact dif_pos he

/-- The blocks of the junk are malformed, one event each, until the frame comes. -/
theorem readAll_junk_append {junk : Bytes} (hj : ¬ HoldsName junk) {body : Bytes} (hn : body.length < Nat.pow 2 64)
    {others : List Bytes} (ho : ∀ line ∈ others, IsOtherLine line) (rest : Bytes) :
    ∃ k, readAll (junk ++ (block body.length others ++ (body ++ rest))) =
      List.replicate k (.malformed .missingLength) ++ bodyEvent body :: readAll rest := by
  rcases readHeaders_junk hj hn ho (body ++ rest) false with h | ⟨left, hlt, hl, h⟩
  · refine ⟨0, readAll_of_read ?_ (isLast_bodyEvent body)⟩
    rw [read, h]
    exact readBody_append body rest
  · obtain ⟨k, hk⟩ := readAll_junk_append hl hn ho rest
    refine ⟨k + 1, ?_⟩
    rw [readAll_of_read (e := .malformed .missingLength) (by rw [read, h]) rfl, hk]
    rfl
termination_by junk.length
decreasing_by exact hlt

theorem readAll_ofBody {body : Bytes} (hn : body.length < Nat.pow 2 64) (rest : Bytes) :
    readAll (ofBody body ++ rest) = bodyEvent body :: readAll rest := by
  have e : ofBody body ++ rest = [] ++ (block body.length [] ++ (body ++ rest)) := by
    rw [ofBody, header_eq_block, List.append_assoc, List.nil_append]
  rw [e]
  have hj : ¬ HoldsName [] := by decide
  have ho : ∀ line ∈ ([] : List Bytes), IsOtherLine line := by simp
  rcases readHeaders_junk hj hn ho (body ++ rest) false with h | ⟨left, hlt, -, -⟩
  · refine readAll_of_read ?_ (isLast_bodyEvent body)
    rw [read, h]
    exact readBody_append body rest
  · exact absurd hlt (Nat.not_lt_zero _)

/-- Whatever comes before a frame and does not hold the name of the length header, the frame is found: its
body comes to one event, and reading goes on with what follows it. The length of a byte string is below
2^64. -/
theorem readAll_behind_junk (junk body rest : Bytes) (others : List Bytes) (hj : ¬ HoldsName junk)
    (ho : ∀ line ∈ others, IsOtherLine line) (hn : body.length < 0x10000000000000000) :
    ∃ k, readAll (junk ++ lengthLine body.length ++ others.flatten ++ Utf8.ofString "\r\n" ++ body ++ rest) =
      List.replicate k (.malformed .missingLength) ++ [bodyEvent body] ++ readAll rest := by
  obtain ⟨k, hk⟩ := readAll_junk_append hj hn ho rest
  refine ⟨k, ?_⟩
  rw [List.append_assoc _ [_], List.singleton_append, ← hk]
  simp only [block, List.append_assoc]

/-- The junk is a block of one line and the start of a character that was cut off. -/
theorem readAll_behind_torn_character : ∃ k,
    readAll (Utf8.ofString "X\n\n" ++ [0xE2, 0x82] ++ lengthLine 2 ++ [Utf8.ofString "Y: 1\n"].flatten ++
      Utf8.ofString "\r\n" ++ Utf8.ofString "no" ++ [0xFF]) =
      List.replicate k (.malformed .missingLength) ++ [bodyEvent (Utf8.ofString "no")] ++ readAll [0xFF] := by
  have ho : IsOtherLine (Utf8.ofString "Y: 1\n") :=
    ⟨⟨Utf8.ofString "Y: 1", by decide, by decide⟩, by decide +kernel, by decide⟩
  exact readAll_behind_junk (Utf8.ofString "X\n\n" ++ [0xE2, 0x82]) (Utf8.ofString "no") [0xFF]
    [Utf8.ofString "Y: 1\n"] (by decide) (by simpa using ho) (by decide)

end Frame

end Liaison
