import Liaison.Proofs.Document.Mirror

/-!
# Positions by the lines of the protocol

To the protocol a line ends with a line feed, with a carriage return or with both of them, and a column
past the end of its line means the end of the line. The range of a change is found again under this model
exactly as long as no carriage return stands alone in front of its end.
-/

namespace Liaison

namespace TextChange

/-! ## Lines -/

/-- Of a carriage return and a line feed it is the line feed that ends the line. -/
def endsLine (c : Char) (rest : List Char) : Bool :=
  c = '\n' || (c = '\r' && rest.head? ≠ some '\n')

/-- How many lines end in a text that the rest follows. -/
def lineEnds : (cs rest : List Char) → Nat
  | [], _ => 0
  | c :: cs, rest => (if endsLine c (cs ++ rest) then 1 else 0) + lineEnds cs rest

def hasLoneReturn : List Char → Bool
  | [] => false
  | c :: cs => (c = '\r' && cs.head? ≠ some '\n') || hasLoneReturn cs

def partAt : List Char → (line character : Nat) → List Char × List Char
  | [], _, _ => ([], [])
  | c :: cs, 0, character =>
    if c = '\n' ∨ c = '\r' ∨ character < units c then ([], c :: cs)
    else (c :: (partAt cs 0 (character - units c)).1, (partAt cs 0 (character - units c)).2)
  | c :: cs, line + 1, character =>
    let line := if endsLine c cs then line else line + 1
    (c :: (partAt cs line character).1, (partAt cs line character).2)

def replaced (cs : List Char) (r : Wire.Range) (new : List Char) : List Char :=
  (partAt cs r.start.line r.start.character).1 ++ new ++ (partAt cs r.stop.line r.stop.character).2

/-- The line feed of the rest belongs to the carriage return at the end of the text. -/
def IsTorn (cs rest : List Char) : Prop :=
  cs.getLast? = some '\r' ∧ rest.head? = some '\n'

section
variable {c : Char} {cs rest : List Char}

theorem endsLine_of_ne (hn : c ≠ '\n') (hr : c ≠ '\r') : endsLine c rest = false := by
  simp [endsLine, hn, hr]

theorem hasLoneReturn_cons (h : hasLoneReturn (c :: cs) = false) :
    (c = '\r' → cs.head? = some '\n') ∧ hasLoneReturn cs = false := by
  simpa [hasLoneReturn] using h

theorem hasLoneReturn_append_return (cs : List Char) {line : List Char} (h : '\n' ∉ line) :
    hasLoneReturn (cs ++ '\r' :: line) = true := by
  induction cs with
  | nil =>
    have : line.head? ≠ some '\n' := fun e => h (List.mem_of_head? e)
    simp [hasLoneReturn, this]
  | cons c cs ih => simp [hasLoneReturn, ih]

theorem hasLoneReturn_of_append (hl : cs.getLast? ≠ some '\r') (h : hasLoneReturn (cs ++ rest) = false) :
    hasLoneReturn cs = false := by
  induction cs with
  | nil => rfl
  | cons c cs ih =>
    rw [List.cons_append] at h
    obtain ⟨hr, hs⟩ := hasLoneReturn_cons h
    cases cs with
    | nil =>
      have hc : c ≠ '\r' := by simpa using hl
      simp [hasLoneReturn, hc]
    | cons d cs =>
      have hc : c = '\r' → d = '\n' := by simpa using hr
      have hrest := ih (by simpa using hl) hs
      rw [hasLoneReturn, hrest]
      simpa using hc

theorem count_le_lineEnds (cs rest : List Char) : cs.count '\n' ≤ lineEnds cs rest := by
  induction cs with
  | nil => simp [lineEnds]
  | cons c cs ih =>
    rw [lineEnds, List.count_cons]
    by_cases hc : c = '\n'
    · simp [endsLine, hc]
      omega
    · simp [hc]
      omega

theorem count_lt_lineEnds (hl : hasLoneReturn cs = true) (ht : ¬ IsTorn cs rest) :
    cs.count '\n' < lineEnds cs rest := by
  induction cs with
  | nil => simp [hasLoneReturn] at hl
  | cons c cs ih =>
    rw [lineEnds, List.count_cons]
    by_cases hs : hasLoneReturn cs = true
    · have hne : cs ≠ [] := by
        intro e
        simp [e, hasLoneReturn] at hs
      have hlast : (c :: cs).getLast? = cs.getLast? := by
        rw [List.getLast?_cons_of_ne_nil hne]
      have hlt := ih hs (fun h => ht ⟨hlast.trans h.1, h.2⟩)
      by_cases hc : c = '\n'
      · simp [endsLine, hc]
        omega
      · simp [hc]
        omega
    · have hc : c = '\r' ∧ cs.head? ≠ some '\n' := by simpa [hasLoneReturn, hs] using hl
      have hhead : (cs ++ rest).head? ≠ some '\n' := by
        cases cs with
        | nil => exact fun h => ht ⟨by simp [hc.1], h⟩
        | cons d cs => simpa using hc.2
      have he : endsLine '\r' (cs ++ rest) = true := by
        rw [endsLine, decide_eq_true hhead]
        rfl
      have hle := count_le_lineEnds cs rest
      rw [hc.1, he]
      simp
      omega

/-! ## Positions -/

theorem partAt_zero_zero (cs : List Char) : partAt cs 0 0 = ([], cs) := by
  cases cs with
  | nil => rfl
  | cons c cs => simp [partAt, units_pos]

theorem partAt_append (h : hasLoneReturn cs = false) (rest : List Char) :
    partAt (cs ++ rest) (cs.count '\n') (column cs) = (cs, rest) := by
  induction cs with
  | nil => exact partAt_zero_zero rest
  | cons c cs ih =>
    obtain ⟨hr, hs⟩ := hasLoneReturn_cons h
    have ih := ih hs
    by_cases hc : c = '\n'
    · subst hc
      rw [List.count_cons_self, column_cons_of_mem (.inl rfl), List.cons_append, partAt]
      simp [endsLine, ih]
    · rw [List.count_cons_of_ne hc]
      by_cases hm : '\n' ∈ cs
      · obtain ⟨n, hn⟩ := Nat.exists_eq_succ_of_ne_zero (List.count_pos_iff.mpr hm).ne'
        have he : endsLine c (cs ++ rest) = false := by
          by_cases hcr : c = '\r'
          · have hhead : (cs ++ rest).head? = some '\n' := by
              rw [List.head?_append, hr hcr]
              rfl
            simp [endsLine, hc, hhead]
          · exact endsLine_of_ne hc hcr
        rw [hn] at ih
        rw [hn, column_cons_of_mem (.inr hm), List.cons_append, partAt]
        simp [he, ih]
      · have hcr : c ≠ '\r' := by
          intro e
          have := hr e
          cases cs with
          | nil => simp at this
          | cons d cs =>
            simp only [List.head?_cons, Option.some.injEq] at this
            simp [this] at hm
        have h0 : cs.count '\n' = 0 := List.count_eq_zero.mpr hm
        rw [h0] at ih
        rw [h0, column_cons_of_not_mem hc hm, List.cons_append, partAt,
          if_neg (by simp [hc, hcr]), Nat.add_sub_cancel_left, ih]

/-- A position in an earlier line is in front of the end of the text, whatever its column. -/
theorem length_partAt_lt {line : Nat} (h : line < lineEnds cs rest) (character : Nat) :
    (partAt (cs ++ rest) line character).1.length < cs.length := by
  induction cs generalizing line character with
  | nil => simp [lineEnds] at h
  | cons c cs ih =>
    rw [lineEnds] at h
    cases line with
    | zero =>
      rw [List.cons_append, partAt]
      by_cases hc : c = '\n' ∨ c = '\r' ∨ character < units c
      · simp [if_pos hc]
      · simp only [not_or] at hc
        have he : endsLine c (cs ++ rest) = false := endsLine_of_ne hc.1 hc.2.1
        have hline : 0 < lineEnds cs rest := by simpa [he] using h
        have := ih hline (character - units c)
        simp [hc.1, hc.2.1, hc.2.2]
        omega
    | succ line =>
      rw [List.cons_append, partAt]
      by_cases he : endsLine c (cs ++ rest) = true
      · rw [if_pos he] at h
        have hline : line < lineEnds cs rest := by omega
        have := ih hline character
        simp [he]
        omega
      · rw [if_neg he] at h
        have hline : line + 1 < lineEnds cs rest := by omega
        have := ih hline character
        simp [he]
        omega

/-- Fewer than 2^32 lines, and fewer than 2^32 UTF-16 units in each of them. -/
structure Addressable (cs : List Char) : Prop where
  lines : lineEnds cs [] + 1 < 0x100000000
  columns : ∀ line, line <:+: cs → '\n' ∉ line → '\r' ∉ line → width line < 0x100000000

theorem lineEnds_append (cs rest : List Char) : lineEnds (cs ++ rest) [] = lineEnds cs rest + lineEnds rest [] := by
  induction cs with
  | nil => simp [lineEnds]
  | cons c cs ih =>
    simp only [List.cons_append, lineEnds, List.append_nil, ih]
    omega

theorem lineEnds_le_length (cs rest : List Char) : lineEnds cs rest ≤ cs.length := by
  induction cs with
  | nil => simp [lineEnds]
  | cons c cs ih =>
    rw [lineEnds, List.length_cons]
    split <;> omega

theorem addressable_of_length (h : cs.length < 0x80000000) : Addressable cs := by
  refine ⟨?_, ?_⟩
  · have := lineEnds_le_length cs []
    omega
  · intro line hl _ _
    have h₁ := width_le line
    have h₂ := hl.length_le
    omega

theorem exists_lastLine_of_not_lone (h : hasLoneReturn cs = false) :
    ∃ line, line <:+ cs ∧ '\n' ∉ line ∧ '\r' ∉ line ∧ width line = column cs := by
  induction cs with
  | nil => exact ⟨[], by simp [width, column]⟩
  | cons c cs ih =>
    obtain ⟨hr, hs⟩ := hasLoneReturn_cons h
    obtain ⟨line, hl, hn, hcr, hw⟩ := ih hs
    by_cases hm : c = '\n' ∨ '\n' ∈ cs
    · exact ⟨line, hl.trans (List.suffix_cons c cs), hn, hcr, by rw [column_cons_of_mem hm, hw]⟩
    · have hmem : '\n' ∉ c :: cs := by simpa [not_or, eq_comm] using hm
      have hret : '\r' ∉ c :: cs := by
        intro hin
        obtain ⟨a, b, e⟩ := List.append_of_mem hin
        have hb : '\n' ∉ b := fun hb => hmem (by rw [e]; simp [hb])
        rw [e, hasLoneReturn_append_return a hb] at h
        cases h
      exact ⟨c :: cs, List.suffix_rfl, hmem, hret, (column_of_not_mem hmem).symm⟩

/-! ## Ranges of changes -/

theorem endPosition_of_addressable (h : Addressable (cs ++ rest)) (hl : hasLoneReturn cs = false) :
    endPosition cs = ⟨cs.count '\n', column cs⟩ := by
  obtain ⟨line, hs, hn, hr, hw⟩ := exists_lastLine_of_not_lone hl
  have hcolumn := h.columns line (hs.isInfix.trans (List.prefix_append cs rest).isInfix) hn hr
  have hlines := h.lines
  have hcount := count_le_lineEnds cs rest
  rw [lineEnds_append] at hlines
  rw [endPosition, width_lastLine, Nat.min_eq_left (by rw [maxCoordinate]; omega),
    Nat.min_eq_left (by rw [maxCoordinate]; omega)]

theorem partAt_endPosition_iff (h : Addressable (cs ++ rest)) (ht : ¬ IsTorn cs rest) :
    partAt (cs ++ rest) (endPosition cs).line (endPosition cs).character = (cs, rest) ↔
      hasLoneReturn cs = false := by
  constructor
  · intro hp
    by_contra hl
    have hcount := count_lt_lineEnds (by simpa using hl) ht
    have hline : (endPosition cs).line < lineEnds cs rest := Nat.lt_of_le_of_lt (Nat.min_le_left _ _) hcount
    have hlt := length_partAt_lt hline (endPosition cs).character
    rw [hp] at hlt
    exact Nat.lt_irrefl _ hlt
  · intro hl
    rw [endPosition_of_addressable h hl]
    exact partAt_append hl rest

end

theorem getLast?_splitReturns (cs : List Char) : (splitReturns cs).1.getLast? ≠ some '\r' := by
  rw [splitReturns, List.getLast?_reverse]
  intro h
  have := List.head?_dropWhile_not (fun c => decide (c = '\r')) cs.reverse
  rw [h] at this
  simp at this

/-- No end of the range of a change parts a carriage return from its line feed. -/
theorem not_isTorn_between (old new : List Char) :
    (between old new).before.getLast? ≠ some '\r' ∧
      ¬ IsTorn ((between old new).before ++ (between old new).removed) (between old new).after := by
  have hb := getLast?_splitReturns (commonStart old new).1
  unfold between
  dsimp only
  split
  · split
    · exact ⟨hb, fun h => by simp [IsTorn] at h⟩
    · rename_i hlast
      refine ⟨hb, fun h => ?_⟩
      have h := h.1
      rw [List.getLast?_append] at h
      cases hr : List.getLast? (commonEnd ((splitReturns (commonStart old new).1).2 ++ (commonStart old new).2.1)
        ((splitReturns (commonStart old new).1).2 ++ (commonStart old new).2.2)).2.1 with
      | none =>
        rw [hr] at h
        exact hb h
      | some c =>
        rw [hr] at h hlast
        exact hlast h
  · rename_i hafter
    refine ⟨hb, fun h => ?_⟩
    obtain ⟨rest, hrest⟩ := List.head?_eq_some_iff.mp h.2
    exact hafter rest hrest

/-- Both ends of the range of a change are found again where no carriage return stands alone in front of them, and
nowhere else. If the end of the range is found again, the server gets the new text. -/
theorem replaced_between (old new : List Char) (h : Addressable old) :
    let c := between old new
    (partAt old c.range.start.line c.range.start.character = (c.before, c.removed ++ c.after) ↔
      hasLoneReturn c.before = false) ∧
    (partAt old c.range.stop.line c.range.stop.character = (c.before ++ c.removed, c.after) ↔
      hasLoneReturn (c.before ++ c.removed) = false) ∧
    (hasLoneReturn (c.before ++ c.removed) = false → replaced old c.range c.inserted = new) := by
  intro c
  obtain ⟨hold, hnew⟩ : c.source = old ∧ c.target = new := between_parts old new
  obtain ⟨hbefore, htorn⟩ : c.before.getLast? ≠ some '\r' ∧ ¬ IsTorn (c.before ++ c.removed) c.after :=
    not_isTorn_between old new
  clear_value c
  have h₁ : c.before ++ (c.removed ++ c.after) = old := by rw [← List.append_assoc]; exact hold
  have h₂ : (c.before ++ c.removed) ++ c.after = old := hold
  have hstart := partAt_endPosition_iff (h₁ ▸ h) (fun ht => hbefore ht.1)
  have hstop := partAt_endPosition_iff (h₂ ▸ h) htorn
  rw [h₁] at hstart
  rw [h₂] at hstop
  refine ⟨hstart, hstop, fun hl => ?_⟩
  have e₁ := hstart.mpr (hasLoneReturn_of_append hbefore hl)
  have e₂ := hstop.mpr hl
  rw [replaced, TextChange.range, e₁, e₂]
  exact hnew

/-- A lone carriage return behind the change does no harm, but in front of it the change is made in the wrong
place. -/
theorem replaced_between_return :
    replaced "a\r\nb\r".toList (between "a\r\nb\r".toList "a\r\r\nb\r".toList).range
      (between "a\r\nb\r".toList "a\r\r\nb\r".toList).inserted = "a\r\r\nb\r".toList ∧
    replaced "a\rb".toList (between "a\rb".toList "a\rbc".toList).range
      (between "a\rb".toList "a\rbc".toList).inserted = "ac\rb".toList :=
  ⟨(replaced_between _ _ (addressable_of_length (by decide))).2.2 (by decide), by decide⟩

end TextChange

end Liaison
