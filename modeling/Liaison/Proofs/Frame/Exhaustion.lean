import Liaison.Frame
import Mathlib.Logic.Function.Iterate

/-!
# Reading to the end

Whatever bytes there are, reading them comes to an end. Every frame and every block that is malformed takes some of
them, and after the last one there is one more event: the stream has ended if nothing but blank lines is left, or
else it is at fault.
-/

namespace Liaison

namespace Frame

/-! ## What is left -/

theorem takeLine_suffix (bs : Bytes) : (takeLine bs).2 <:+ bs :=
  ⟨(takeLine bs).1, takeLine_append bs⟩

theorem readHeaders_suffix (started : Bool) (announced : Announced) (bs : Bytes) :
    (readHeaders started announced bs).2 <:+ bs := by
  fun_induction readHeaders started announced bs with
  | case1 => exact List.nil_suffix
  | case2 => exact takeLine_suffix _
  | case3 _ _ _ _ _ _ _ _ ih => exact ih.trans (takeLine_suffix _)
  | case4 _ _ _ _ _ _ _ ih => exact ih.trans (takeLine_suffix _)

theorem readBody_suffix (n : Nat) (bs : Bytes) : (readBody n bs).2 <:+ bs := by
  unfold readBody
  repeat' split
  all_goals first
    | exact List.nil_suffix
    | exact List.drop_suffix n bs

theorem read_suffix (bs : Bytes) : (read bs).2 <:+ bs := by
  have hheaders := readHeaders_suffix false .nothing bs
  rw [read]
  split
  all_goals
    rename_i h
    rw [h] at hheaders
  · exact hheaders
  · exact hheaders
  · exact hheaders
  · exact hheaders
  · exact (readBody_suffix _ _).trans hheaders

theorem exists_used {bs : Bytes} (h : (read bs).1.isLast = false) : ∃ used ≠ [], bs = used ++ (read bs).2 := by
  obtain ⟨used, hu⟩ := read_suffix bs
  refine ⟨used, ?_, hu.symm⟩
  rintro rfl
  have hlen := length_read h
  rw [List.nil_append] at hu
  rw [hu] at hlen
  exact Nat.lt_irrefl _ hlen

/-! ## Blank lines -/

/-- The lines of a stream, each with its line feed, which the last one may lack. -/
def lines (bs : Bytes) : List Bytes :=
  if _h : bs = [] then []
  else (takeLine bs).1 :: lines (takeLine bs).2
termination_by bs.length
decreasing_by exact length_takeLine bs _h

/-- Nothing is left of the line once it was read as text and trimmed. -/
def IsBlankLine (line : Bytes) : Prop :=
  trim (Utf8.decodeLossy line) = []

theorem lines_nil : lines [] = [] := by
  rw [lines, dif_pos rfl]

theorem lines_of_ne_nil {bs : Bytes} (h : bs ≠ []) : lines bs = (takeLine bs).1 :: lines (takeLine bs).2 := by
  rw [lines, dif_neg h]

/-- Only blank lines are skipped before a block begins, and a block that has begun does not end the stream. -/
theorem readHeaders_eq_ended_iff (started : Bool) (announced : Announced) (bs : Bytes) :
    (readHeaders started announced bs).1 = .ended ↔ started = false ∧ ∀ line ∈ lines bs, IsBlankLine line := by
  fun_induction readHeaders started announced bs with
  | case1 started => cases started <;> simp [lines_nil]
  | case2 announced bs hbs line rest hblank => simp
  | case3 started announced bs hbs line rest hblank hstarted ih =>
    rw [ih, lines_of_ne_nil hbs, List.forall_mem_cons]
    have hline : IsBlankLine (takeLine bs).1 := List.isEmpty_iff.mp hblank
    simp [hstarted, hline, rest]
  | case4 started announced bs hbs line rest hblank ih =>
    rw [ih, lines_of_ne_nil hbs, List.forall_mem_cons]
    have hline : ¬ IsBlankLine (takeLine bs).1 := fun h => hblank (List.isEmpty_iff.mpr h)
    simp [hline]

theorem readBody_ne_ended (n : Nat) (bs : Bytes) : (readBody n bs).1 ≠ .ended := by
  unfold readBody
  repeat' split
  all_goals simp

theorem read_eq_ended_iff (bs : Bytes) : (read bs).1 = .ended ↔ ∀ line ∈ lines bs, IsBlankLine line := by
  have hheaders := readHeaders_eq_ended_iff false .nothing bs
  rw [read]
  split
  all_goals
    rename_i h
    rw [h] at hheaders
  · simpa using hheaders
  · simpa using hheaders
  · simpa using hheaders
  · simpa using hheaders
  · simpa [readBody_ne_ended] using hheaders

/-! ## One call after another -/

def left (bs : Bytes) (calls : Nat) : Bytes :=
  (fun bs => (read bs).2)^[calls] bs

theorem left_zero (bs : Bytes) : left bs 0 = bs := rfl

theorem left_succ (bs : Bytes) (calls : Nat) : left bs (calls + 1) = left (read bs).2 calls :=
  Function.iterate_succ_apply _ _ _

theorem eq_of_isLast {e : Event} (h : e.isLast = true) : e = .ended ∨ ∃ cut, e = .fault cut := by
  cases e with
  | ended => exact .inl rfl
  | fault cut => exact .inr ⟨cut, rfl⟩
  | frame | malformed => cases h

/-- Reading comes to an end: there are at most as many frames and malformed blocks as there are bytes, since each of
them takes at least one, and one last event, which says that the stream has ended exactly when all that is left are
blank lines. -/
theorem readAll_exhausts (bs : Bytes) :
    ∃ n ≤ bs.length, readAll bs = (List.range (n + 1)).map (fun k => (read (left bs k)).1) ∧
      (∀ k < n, (read (left bs k)).1.isLast = false ∧ ∃ used ≠ [], left bs k = used ++ left bs (k + 1)) ∧
      ((read (left bs n)).1 = .ended ↔ ∀ line ∈ lines (left bs n), IsBlankLine line) ∧
      ((read (left bs n)).1 = .ended ∨ ∃ cut, (read (left bs n)).1 = .fault cut) := by
  fun_induction readAll bs with
  | case1 bs h ih =>
    obtain ⟨n, hn, hevents, huse, hblank, hlast⟩ := ih
    refine ⟨n + 1, Nat.lt_of_le_of_lt hn (length_read h), ?_, ?_, ?_, ?_⟩
    · rw [List.range_succ_eq_map, List.map_cons, List.map_map, hevents]
      simp only [left_zero, Function.comp_def, left_succ]
    · intro k hk
      cases k with
      | zero => exact ⟨h, exists_used h⟩
      | succ k =>
        rw [left_succ, left_succ]
        exact huse k (Nat.lt_of_succ_lt_succ hk)
    · rwa [left_succ]
    · rwa [left_succ]
  | case2 bs h =>
    have hlast : (read bs).1.isLast = true := by simpa using h
    refine ⟨0, Nat.zero_le _, rfl, ?_, read_eq_ended_iff bs, eq_of_isLast hlast⟩
    intro k hk
    exact absurd hk (Nat.not_lt_zero k)

end Frame

end Liaison
