import Liaison.Proofs.Frame.Alignment

/-!
# Frames of a stream

A frame that was read from what has come of a stream is the same whatever comes behind it. So reading as the
bytes come gives the events of the whole stream, one after another.
-/

namespace Liaison

namespace Frame

/-! ## Lines -/

theorem takeLine_append_right {bs : Bytes} (h : 0x0A ∈ bs) (more : Bytes) :
    takeLine (bs ++ more) = ((takeLine bs).1, (takeLine bs).2 ++ more) := by
  induction bs with
  | nil => exact absurd h List.not_mem_nil
  | cons b bs ih =>
    rw [List.cons_append]
    unfold takeLine
    by_cases hb : b = 0x0A
    · simp [hb]
    · have hm : 0x0A ∈ bs := by simpa [Ne.symm hb] using h
      simp [hb, ih hm]

theorem mem_of_takeLine {bs : Bytes} (h : (takeLine bs).2 ≠ []) : 0x0A ∈ bs := by
  induction bs with
  | nil => exact absurd rfl h
  | cons b bs ih =>
    unfold takeLine at h
    by_cases hb : b = 0x0A
    · simp [hb]
    · simp only [hb, if_false] at h
      exact List.mem_cons_of_mem _ (ih h)

theorem getLast?_takeLine {bs : Bytes} (h : (takeLine bs).2 ≠ []) : (takeLine bs).2.getLast? = bs.getLast? := by
  conv => rhs; rw [← takeLine_append bs]
  rw [List.getLast?_append]
  cases hl : List.getLast? (takeLine bs).2 with
  | none => exact absurd (List.getLast?_eq_none_iff.mp hl) h
  | some b => rfl

/-! ## Frames -/

theorem ne_nil_of_readHeaders {started : Bool} {announced a : Announced} {bs rest : Bytes}
    (h : readHeaders started announced bs = (.blankLine a, rest)) : bs ≠ [] := by
  rintro rfl
  rw [readHeaders_nil] at h
  cases started <;> simp at h

/-- A block of header lines that has come with its last line feed is the same whatever comes behind it. -/
theorem readHeaders_append {started : Bool} {announced a : Announced} {bs rest : Bytes}
    (h : readHeaders started announced bs = (.blankLine a, rest)) (hw : rest ≠ [] ∨ bs.getLast? = some 0x0A)
    (more : Bytes) : readHeaders started announced (bs ++ more) = (.blankLine a, rest ++ more) := by
  fun_induction readHeaders started announced bs with
  | case1 =>
    simp only [Prod.mk.injEq] at h
    split at h <;> simp at h
  | case2 announced bs hbs line left hblank =>
    simp only [Prod.mk.injEq, HeaderEnd.blankLine.injEq] at h
    obtain ⟨rfl, rfl⟩ := h
    have hm : 0x0A ∈ bs := hw.elim mem_of_takeLine List.mem_of_getLast?
    rw [readHeaders, dif_neg (List.append_ne_nil_of_left_ne_nil hbs _)]
    simp only [takeLine_append_right hm]
    rw [if_pos hblank, if_pos trivial]
  | case3 started announced bs hbs line left hblank hstarted ih =>
    have hleft : left ≠ [] := ne_nil_of_readHeaders h
    rw [readHeaders, dif_neg (List.append_ne_nil_of_left_ne_nil hbs _)]
    simp only [takeLine_append_right (mem_of_takeLine hleft)]
    rw [if_pos hblank, if_neg hstarted]
    exact ih h (hw.imp_right fun hl => (getLast?_takeLine hleft).trans hl)
  | case4 started announced bs hbs line left hblank ih =>
    have hleft : left ≠ [] := ne_nil_of_readHeaders h
    rw [readHeaders, dif_neg (List.append_ne_nil_of_left_ne_nil hbs _)]
    simp only [takeLine_append_right (mem_of_takeLine hleft)]
    rw [if_neg hblank]
    exact ih h (hw.imp_right fun hl => (getLast?_takeLine hleft).trans hl)

theorem readBody_append_right {n : Nat} {bs rest : Bytes} {e : Event} (h : readBody n bs = (e, rest))
    (he : e.isLast = false) (more : Bytes) : readBody n (bs ++ more) = (e, rest ++ more) := by
  by_cases hn : bs.length < n
  · exfalso
    rw [readBody, if_pos hn, if_pos hn] at h
    split at h <;> cases h <;> cases he
  · have hlong : ¬ (bs ++ more).length < n := by
      rw [List.length_append]
      omega
    have htake : (bs ++ more).take n = bs.take n := List.take_append_of_le_length (by omega)
    have hdrop : (bs ++ more).drop n = bs.drop n ++ more := List.drop_append_of_le_length (by omega)
    rw [readBody, if_neg hn, if_neg hn] at h
    rw [readBody, if_neg hlong, if_neg hlong, htake, hdrop]
    split at h
    · rename_i hmax
      rw [if_pos hmax]
      cases h
      rfl
    · rename_i hmax
      rw [if_neg hmax]
      split at h
      all_goals
        cases h
        rfl

/-- A frame that can be read of a stream that goes on is the same whatever comes behind it. -/
theorem read_append {bs rest : Bytes} {e : Event} (h : next? false bs = some (e, rest)) (more : Bytes) :
    read (bs ++ more) = (e, rest ++ more) ∧ e.isLast = false := by
  rw [next?] at h
  split at h
  · cases h
  · rename_i hc
    simp only [Bool.not_false, Bool.true_and, Bool.or_eq_true, not_or, Bool.not_eq_true] at hc
    obtain ⟨hlast, hmid⟩ := hc
    simp only [Option.some.injEq] at h
    rw [h] at hlast
    refine ⟨?_, hlast⟩
    cases hh : readHeaders false .nothing bs with
    | mk headerEnd left =>
      have hw : left ≠ [] ∨ bs.getLast? = some 0x0A := by
        rw [isMidLine, hh] at hmid
        by_cases hl : left = []
        · right
          simpa [hl] using hmid
        · exact .inl hl
      rw [read, hh] at h
      cases headerEnd with
      | ended =>
        cases h
        cases hlast
      | cut =>
        cases h
        cases hlast
      | blankLine announced =>
        rw [read, readHeaders_append hh hw]
        cases announced with
        | nothing => cases h; rfl
        | invalid value => cases h; rfl
        | length n => exact readBody_append_right h hlast more

theorem readAll_of_isLast {bs : Bytes} (h : (read bs).1.isLast = true) : readAll bs = [(read bs).1] := by
  rw [readAll, dif_neg (by simp [h])]

/-- What is read of a stream that goes on is the first event of the whole stream. -/
theorem readAll_next {bs rest : Bytes} {e : Event} (h : next? false bs = some (e, rest)) (more : Bytes) :
    readAll (bs ++ more) = e :: readAll (rest ++ more) := by
  obtain ⟨hr, he⟩ := read_append h more
  exact readAll_of_read hr he

end Frame

end Liaison
