import Liaison.Proofs.Document.LineEnds

/-!
# The extent of a change

A change leaves out as much as it can. Its start is the end of the longest common start of the two texts, less the
carriage returns there, and what follows its end is the longest common end of what is left, less a line feed that the
end would part from its carriage return. So both ends mean the same place to a server that takes a carriage return
with its line feed for one end of a line.
-/

namespace Liaison

namespace TextChange

/-! ## Longest common parts -/

def IsLongestStart (common as bs : List Char) : Prop :=
  common <+: as ∧ common <+: bs ∧ ∀ l, l <+: as → l <+: bs → l <+: common

def IsLongestEnd (common as bs : List Char) : Prop :=
  common <:+ as ∧ common <:+ bs ∧ ∀ l, l <:+ as → l <:+ bs → l <:+ common

theorem prefix_commonStart {l : List Char} : ∀ {as bs : List Char}, l <+: as → l <+: bs → l <+: (commonStart as bs).1
  | [], bs, ha, _ => by
    rw [List.prefix_nil.mp ha]
    exact List.nil_prefix
  | a :: as, [], _, hb => by
    rw [List.prefix_nil.mp hb]
    exact List.nil_prefix
  | a :: as, b :: bs, ha, hb => by
    cases l with
    | nil => exact List.nil_prefix
    | cons c l =>
      obtain ⟨hca, ha'⟩ := List.cons_prefix_cons.mp ha
      obtain ⟨hcb, hb'⟩ := List.cons_prefix_cons.mp hb
      rw [commonStart, if_pos (hca.symm.trans hcb)]
      exact List.cons_prefix_cons.mpr ⟨hca, prefix_commonStart ha' hb'⟩

theorem isLongestStart_commonStart (as bs : List Char) : IsLongestStart (commonStart as bs).1 as bs := by
  obtain ⟨ha, hb⟩ := commonStart_append as bs
  exact ⟨⟨_, ha⟩, ⟨_, hb⟩, fun l => prefix_commonStart⟩

theorem isLongestEnd_commonEnd (as bs : List Char) :
    IsLongestEnd (commonEnd as bs).1 ((commonEnd as bs).2.1 ++ (commonEnd as bs).1)
      ((commonEnd as bs).2.2 ++ (commonEnd as bs).1) := by
  obtain ⟨hold, hnew⟩ := commonEnd_append as bs
  obtain ⟨ha, hb, hlongest⟩ := isLongestStart_commonStart as.reverse bs.reverse
  have hcommon : (commonEnd as bs).1.reverse = (commonStart as.reverse bs.reverse).1 := List.reverse_reverse _
  rw [hold, hnew]
  unfold IsLongestEnd
  simp only [← List.reverse_prefix, hcommon]
  exact ⟨ha, hb, fun l => hlongest l.reverse⟩

theorem exists_splitReturns (cs : List Char) : ∃ n, cs = (splitReturns cs).1 ++ List.replicate n '\r' := by
  refine ⟨(splitReturns cs).2.length, ?_⟩
  have hreturns : (splitReturns cs).2 = List.replicate (splitReturns cs).2.length '\r' := by
    refine List.eq_replicate_iff.mpr ⟨rfl, fun c hc => ?_⟩
    simpa using List.mem_takeWhile_imp hc
  rw [← hreturns, splitReturns_append]

/-! ## Offsets -/

/-- The byte offset of a position, in lines that end with a line feed. -/
def offset? (cs : List Char) (p : Wire.Position) : Option Nat :=
  (splitAt? cs p.line p.character).map fun parts => Utf8.length parts.1

/-- The byte offset of a position, in lines that end with a line feed or with a carriage return and a line feed. A
column past the end of what is in its line means that end. -/
def clampedOffset : List Char → (line character : Nat) → Nat
  | [], _, _ => 0
  | c :: cs, 0, character =>
    if c = '\n' ∨ (c = '\r' ∧ cs.head? = some '\n') ∨ character < units c then 0
    else Utf8.width c + clampedOffset cs 0 (character - units c)
  | c :: cs, line + 1, character => Utf8.width c + clampedOffset cs (if c = '\n' then line else line + 1) character

section
variable {c : Char} {cs rest : List Char}

theorem length_cons (c : Char) (cs : List Char) : Utf8.length (c :: cs) = Utf8.width c + Utf8.length cs := by
  simp [Utf8.length, Utf8.width]

theorem offset?_endPosition (h : Measured (cs ++ rest)) :
    offset? (cs ++ rest) (endPosition cs) = some (Utf8.length cs) := by
  rw [offset?, endPosition_of_measured h, splitAt?_append]
  rfl

theorem isTorn_cons (h : IsTorn cs rest) : IsTorn (c :: cs) rest := by
  refine ⟨?_, h.2⟩
  rw [List.getLast?_cons, h.1]
  rfl

/-- Without lone carriage returns there is none in the last line, unless it is at the end of the text and its line feed
follows. -/
theorem clampedOffset_append (hl : hasLoneReturn (cs ++ rest) = false) (ht : ¬ IsTorn cs rest) :
    clampedOffset (cs ++ rest) (cs.count '\n') (column cs) = Utf8.length cs := by
  induction cs with
  | nil =>
    cases rest with
    | nil => rfl
    | cons c rest => simp [clampedOffset, column, units_pos, Utf8.length]
  | cons c cs ih =>
    obtain ⟨hr, hs⟩ := hasLoneReturn_cons hl
    have ih := ih hs fun h => ht (isTorn_cons h)
    rw [length_cons, List.cons_append]
    by_cases hc : c = '\n'
    · subst hc
      rw [List.count_cons_self, column_cons_of_mem (.inl rfl), clampedOffset, if_pos rfl, ih]
    · rw [List.count_cons_of_ne hc]
      -- Only in the last line do columns count, and there a carriage return before a line feed would stop too early.
      by_cases hm : '\n' ∈ cs
      · obtain ⟨n, hn⟩ := Nat.exists_eq_succ_of_ne_zero (List.count_pos_iff.mpr hm).ne'
        rw [hn] at ih
        rw [hn, column_cons_of_mem (.inr hm), clampedOffset, if_neg hc, ih]
      · have h0 : cs.count '\n' = 0 := List.count_eq_zero.mpr hm
        have hreturn : ¬ (c = '\r' ∧ (cs ++ rest).head? = some '\n') := by
          rintro ⟨rfl, hhead⟩
          cases cs with
          | nil => exact ht ⟨rfl, hhead⟩
          | cons d cs => simp_all
        rw [h0] at ih
        have hstays : ¬ (c = '\n' ∨ (c = '\r' ∧ (cs ++ rest).head? = some '\n') ∨ units c + column cs < units c) := by
          rintro (h | h | h)
          · exact hc h
          · exact hreturn h
          · omega
        rw [h0, column_cons_of_not_mem hc hm, clampedOffset, if_neg hstays, Nat.add_sub_cancel_left, ih]

theorem clampedOffset_endPosition (h : Measured (cs ++ rest)) (hl : hasLoneReturn (cs ++ rest) = false)
    (ht : ¬ IsTorn cs rest) :
    clampedOffset (cs ++ rest) (endPosition cs).line (endPosition cs).character = Utf8.length cs := by
  rw [endPosition_of_measured h]
  exact clampedOffset_append hl ht

end

/-! ## The parts of a change -/

/-- The start of a change is the end of the longest common start, less the carriage returns there. -/
theorem exists_longestStart (old new : List Char) :
    ∃ n, IsLongestStart ((between old new).before ++ List.replicate n '\r') old new := by
  have hbefore : (between old new).before = (splitReturns (commonStart old new).1).1 := by
    unfold between
    dsimp only
    split
    · split <;> rfl
    · rfl
  obtain ⟨n, hn⟩ := exists_splitReturns (commonStart old new).1
  refine ⟨n, ?_⟩
  rw [hbefore, ← hn]
  exact isLongestStart_commonStart old new

/-- What follows the end of a change is the longest common end of what follows its start, less a line feed whose
carriage return is removed. -/
theorem exists_longestEnd (old new : List Char) :
    let c := between old new
    ∃ removed common, c.removed ++ c.after = removed ++ common ∧
      IsLongestEnd common (c.removed ++ c.after) (c.inserted ++ c.after) ∧
      c.after = if removed.getLast? = some '\r' ∧ common.head? = some '\n' then common.tail else common := by
  have hlongest := isLongestEnd_commonEnd ((splitReturns (commonStart old new).1).2 ++ (commonStart old new).2.1)
    ((splitReturns (commonStart old new).1).2 ++ (commonStart old new).2.2)
  unfold between
  dsimp only
  split
  · rename_i rest hrest
    rw [hrest] at hlongest
    split
    · rename_i hlast
      refine ⟨_, '\n' :: rest, List.append_assoc .., ?_, ?_⟩
      · simpa using hlongest
      · simp [hlast]
    · rename_i hlast
      rw [hrest]
      exact ⟨_, '\n' :: rest, rfl, hlongest, by simp [hlast]⟩
  · rename_i hfeed
    refine ⟨_, _, rfl, hlongest, ?_⟩
    rw [if_neg]
    rintro ⟨-, hhead⟩
    obtain ⟨rest, hrest⟩ := List.head?_eq_some_iff.mp hhead
    exact hfeed rest hrest

/-! ## Whole changes -/

/-- The change goes from the byte at `p` of the old text to the one at `q`, and no further than it has to. -/
structure Extent (c : TextChange) (old new : List Char) (p q : Nat) : Prop where
  start : offset? old c.range.start = some p
  stop : offset? old c.range.stop = some q
  le : p ≤ q
  source : c.before ++ c.removed ++ c.after = old
  boundary : Utf8.length c.before = p ∧ Utf8.length (c.before ++ c.removed) = q
  spliced : (Utf8.encode old).take p ++ Utf8.encode c.inserted ++ (Utf8.encode old).drop q = Utf8.encode new
  untorn : ¬ IsTorn c.before (c.removed ++ c.after) ∧ ¬ IsTorn (c.before ++ c.removed) c.after
  clamped : hasLoneReturn old = false → clampedOffset old c.range.start.line c.range.start.character = p ∧
    clampedOffset old c.range.stop.line c.range.stop.character = q
  first : c.before.getLast? ≠ some '\r' ∧ ∃ n, IsLongestStart (c.before ++ List.replicate n '\r') old new
  last : ∃ removed common, c.removed ++ c.after = removed ++ common ∧
    IsLongestEnd common (c.removed ++ c.after) (c.inserted ++ c.after) ∧
    c.after = if removed.getLast? = some '\r' ∧ common.head? = some '\n' then common.tail else common

theorem splice {c : TextChange} {old new : List Char} (hold : c.source = old) (hnew : c.target = new) :
    (Utf8.encode old).take (Utf8.length c.before) ++ Utf8.encode c.inserted ++
      (Utf8.encode old).drop (Utf8.length (c.before ++ c.removed)) = Utf8.encode new := by
  subst hold hnew
  unfold source target Utf8.length
  have hbefore : (Utf8.encode (c.before ++ c.removed ++ c.after)).take (Utf8.encode c.before).length =
      Utf8.encode c.before := by
    rw [List.append_assoc, Utf8.encode_append, List.take_left]
  have hafter : (Utf8.encode (c.before ++ c.removed ++ c.after)).drop (Utf8.encode (c.before ++ c.removed)).length =
      Utf8.encode c.after := by
    rw [Utf8.encode_append (c.before ++ c.removed), List.drop_left]
  rw [hbefore, hafter, Utf8.encode_append, Utf8.encode_append]

theorem extent_between (old new : List Char) (h : Measured old) :
    let c := between old new
    c.Extent old new (Utf8.length c.before) (Utf8.length (c.before ++ c.removed)) := by
  intro c
  obtain ⟨hold, hnew⟩ : c.source = old ∧ c.target = new := between_parts old new
  obtain ⟨hreturn, htorn⟩ : c.before.getLast? ≠ some '\r' ∧ ¬ IsTorn (c.before ++ c.removed) c.after :=
    not_isTorn_between old new
  have hstart : c.before ++ (c.removed ++ c.after) = old := by
    rw [← List.append_assoc]
    exact hold
  have hstop : (c.before ++ c.removed) ++ c.after = old := hold
  have hstay : ¬ IsTorn c.before (c.removed ++ c.after) := fun ht => hreturn ht.1
  refine ⟨?_, ?_, ?_, hold, ⟨rfl, rfl⟩, splice hold hnew, ⟨hstay, htorn⟩, ?_, ⟨hreturn, exists_longestStart old new⟩,
    exists_longestEnd old new⟩
  · have hoffset := offset?_endPosition (hstart.symm ▸ h)
    rwa [hstart] at hoffset
  · have hoffset := offset?_endPosition (hstop.symm ▸ h)
    rwa [hstop] at hoffset
  · simp [Utf8.length]
  · intro hl
    have hfirst := clampedOffset_endPosition (hstart.symm ▸ h) (hstart.symm ▸ hl) hstay
    have hlast := clampedOffset_endPosition (hstop.symm ▸ h) (hstop.symm ▸ hl) htorn
    rw [hstart] at hfirst
    rw [hstop] at hlast
    exact ⟨hfirst, hlast⟩

/-- The line feed is removed with its carriage return and put back. -/
theorem extent_between_lineFeed :
    let c := between "é\r\nb".toList "é\nb".toList
    Measured "é\r\nb".toList ∧ c.inserted = ['\n'] ∧ c.Extent "é\r\nb".toList "é\nb".toList 2 4 :=
  ⟨measured_of_length (by decide), by decide, extent_between _ _ (measured_of_length (by decide))⟩

end TextChange

end Liaison
