import Liaison.Document.Change
import Mathlib.Data.List.TakeWhile

/-!
# What a change does

The parts of a change put together are the old text and the new one, and its range is found again in the
old text by counting lines that end with a line feed and UTF-16 units.
-/

namespace Liaison

namespace TextChange

/-! ## The parts of a change -/

theorem commonStart_append : ∀ as bs : List Char,
    (commonStart as bs).1 ++ (commonStart as bs).2.1 = as ∧
      (commonStart as bs).1 ++ (commonStart as bs).2.2 = bs
  | [], bs => by simp [commonStart]
  | a :: as, [] => by simp [commonStart]
  | a :: as, b :: bs => by
    have ih := commonStart_append as bs
    rw [commonStart]
    by_cases h : a = b
    · rw [if_pos h, ← h]
      exact ⟨congrArg (a :: ·) ih.1, congrArg (a :: ·) ih.2⟩
    · rw [if_neg h]
      exact ⟨rfl, rfl⟩

theorem commonEnd_append (as bs : List Char) :
    (commonEnd as bs).2.1 ++ (commonEnd as bs).1 = as ∧ (commonEnd as bs).2.2 ++ (commonEnd as bs).1 = bs := by
  obtain ⟨ha, hb⟩ := commonStart_append as.reverse bs.reverse
  simp only [commonEnd, ← List.reverse_append, ha, hb, List.reverse_reverse, and_self]

theorem splitReturns_append (cs : List Char) : (splitReturns cs).1 ++ (splitReturns cs).2 = cs := by
  have hr : (cs.reverse.takeWhile (· = '\r')).reverse = cs.reverse.takeWhile (· = '\r') := by
    have h : cs.reverse.takeWhile (· = '\r') = List.replicate (cs.reverse.takeWhile (· = '\r')).length '\r' :=
      List.eq_replicate_iff.mpr ⟨rfl, fun c hc => by simpa using List.mem_takeWhile_imp hc⟩
    rw [h, List.reverse_replicate]
  rw [splitReturns, ← hr, ← List.reverse_append, List.takeWhile_append_dropWhile, List.reverse_reverse]

def source (c : TextChange) : List Char :=
  c.before ++ c.removed ++ c.after

def target (c : TextChange) : List Char :=
  c.before ++ c.inserted ++ c.after

theorem between_parts (old new : List Char) :
    (between old new).source = old ∧ (between old new).target = new := by
  obtain ⟨hold, hnew⟩ := commonStart_append old new
  have hret := splitReturns_append (commonStart old new).1
  obtain ⟨ho, hn⟩ := commonEnd_append
    ((splitReturns (commonStart old new).1).2 ++ (commonStart old new).2.1)
    ((splitReturns (commonStart old new).1).2 ++ (commonStart old new).2.2)
  have hsource : (splitReturns (commonStart old new).1).1 ++
      ((splitReturns (commonStart old new).1).2 ++ (commonStart old new).2.1) = old := by
    rw [← List.append_assoc, hret, hold]
  have htarget : (splitReturns (commonStart old new).1).1 ++
      ((splitReturns (commonStart old new).1).2 ++ (commonStart old new).2.2) = new := by
    rw [← List.append_assoc, hret, hnew]
  rw [← ho] at hsource
  rw [← hn] at htarget
  unfold between
  dsimp only
  split
  · rename_i rest he
    rw [he] at hsource htarget
    -- the line feed goes from the common end to the end of both parts
    split
    · exact ⟨by simpa [source] using hsource, by simpa [target] using htarget⟩
    · rw [← he] at hsource htarget
      exact ⟨by simpa [source] using hsource, by simpa [target] using htarget⟩
  · exact ⟨by simpa [source] using hsource, by simpa [target] using htarget⟩

/-! ## Coordinates -/

def column : List Char → Nat
  | [] => 0
  | c :: cs => if c = '\n' ∨ '\n' ∈ cs then column cs else units c + column cs

theorem width_append (as bs : List Char) : width (as ++ bs) = width as + width bs := by
  induction as with
  | nil => simp [width]
  | cons a as ih => rw [List.cons_append, width, ih, width, Nat.add_assoc]

theorem column_of_not_mem {cs : List Char} (h : '\n' ∉ cs) : column cs = width cs := by
  induction cs with
  | nil => rfl
  | cons c cs ih =>
    simp only [List.mem_cons, not_or] at h
    rw [column, if_neg (by simp [Ne.symm h.1, h.2]), ih h.2, width]

theorem width_reverse (cs : List Char) : width cs.reverse = width cs := by
  induction cs with
  | nil => rfl
  | cons c cs ih => rw [List.reverse_cons, width_append, ih, width, width, width, Nat.add_comm, Nat.add_zero]

theorem width_lastLine (cs : List Char) : width (cs.reverse.takeWhile (· ≠ '\n')) = column cs := by
  induction cs with
  | nil => rfl
  | cons c cs ih =>
    rw [List.reverse_cons, column]
    by_cases h : '\n' ∈ cs
    · rw [if_pos (Or.inr h), ← ih]
      obtain ⟨as, bs, e, hn⟩ := List.eq_append_cons_of_mem (List.mem_reverse.mpr h)
      have hp : ∀ a ∈ as, decide (a ≠ '\n') = true := fun a ha =>
        decide_eq_true fun e' => hn (e' ▸ ha)
      rw [e, List.append_assoc, List.takeWhile_append_of_pos hp, List.takeWhile_append_of_pos hp]
      simp
    · have hp : ∀ a ∈ cs.reverse, decide (a ≠ '\n') = true := fun a ha =>
        decide_eq_true fun e' => h (e' ▸ List.mem_reverse.mp ha)
      rw [List.takeWhile_append_of_pos hp, width_append, width_reverse, column_of_not_mem h]
      by_cases hc : c = '\n'
      · rw [if_pos (Or.inl hc)]
        simp [hc, width]
      · rw [if_neg (by simp [hc, h])]
        simp [hc, width, Nat.add_comm]

end TextChange

end Liaison
