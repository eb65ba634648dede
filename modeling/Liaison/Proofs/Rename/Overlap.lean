import Liaison.Proofs.Rename.Gathering

/-!
# Edits that overlap

Only neighbours are compared, in the order of where they start. That is enough as long as ranges run forwards: an
edit hides from one that it overlaps only behind another one that runs back over its start.
-/

namespace Liaison

/-! ## Positions in order -/

namespace Position

theorem before_iff {p q : Position} :
    p.before q = true ↔ p.line < q.line ∨ p.line = q.line ∧ p.column < q.column := by
  simp [before]

theorem before_eq_false_iff {p q : Position} :
    p.before q = false ↔ q.line < p.line ∨ q.line = p.line ∧ q.column ≤ p.column := by
  rw [← Bool.not_eq_true, before_iff]
  omega

theorem before_eq_false_trans {p q r : Position} (hpq : q.before p = false) (hqr : r.before q = false) :
    r.before p = false := by
  rw [before_eq_false_iff] at *
  omega

theorem eq_of_before_eq_false {p q : Position} (hpq : q.before p = false) (hqp : p.before q = false) : p = q := by
  obtain ⟨l, c⟩ := p
  obtain ⟨l', c'⟩ := q
  simp only [before_eq_false_iff, mk.injEq] at *
  omega

def IsBelowLimit (p : Position) : Prop :=
  p.line < maxCoordinate ∧ p.column < maxCoordinate

instance (p : Position) : Decidable p.IsBelowLimit :=
  inferInstanceAs (Decidable (_ ∧ _))

end Position

namespace Range

variable {a b c : Range}

theorem overlaps_eq_false_iff :
    a.overlaps b = false ↔ a.start.before b.stop = false ∨ b.start.before a.stop = false := by
  unfold overlaps
  exact Bool.and_eq_false_iff

theorem overlaps_comm (a b : Range) : a.overlaps b = b.overlaps a := by
  rw [overlaps, overlaps, Bool.and_comm]

/-- The range begins behind the start of the other one, runs backwards, and ends in front of it. -/
def RunsBackOver (b a : Range) : Prop :=
  b.stop.before b.start = true ∧ a.start.before b.stop = false ∧ b.start.before a.start = false

instance (b a : Range) : Decidable (b.RunsBackOver a) :=
  inferInstanceAs (Decidable (_ ∧ _))

/-- The ranges start in order, and of two empty ones at one place neither is longer. -/
structure Precedes (a b : Range) : Prop where
  start : b.start.before a.start = false
  stop : b.start = a.start → b.stop = a.start → a.start.before a.stop = false

/-- A range does not reach over its neighbour, unless that one runs back. -/
theorem overlaps_eq_false_of_neighbour (hab : a.Precedes b) (hbc : c.start.before b.start = false)
    (hn : a.overlaps b = false) (hback : ¬ b.RunsBackOver a) : a.overlaps c = false := by
  rw [overlaps_eq_false_iff] at hn ⊢
  have hends : b.start.before a.stop = false := by
    rcases hn with hn | hn
    · -- The neighbour is in front of what it starts behind: both are empty, and at one place.
      have hforth : b.stop.before b.start = false := by
        rw [← Bool.not_eq_true]
        exact fun hb => hback ⟨hb, hn, hab.start⟩
      have hstart : b.start = a.start :=
        Position.eq_of_before_eq_false (Position.before_eq_false_trans hforth hn) hab.start
      have hstop : b.stop = a.start :=
        Position.eq_of_before_eq_false hn (Position.before_eq_false_trans hab.start hforth)
      rw [hstart]
      exact hab.stop hstart hstop
    · exact hn
  exact .inr (Position.before_eq_false_trans hends hbc)

end Range

/-! ## Source order -/

namespace Wire

theorem Position.eq_of_toPosition_eq {p q : Position} (h : p.toPosition = q.toPosition)
    (hlimit : q.toPosition.IsBelowLimit) : p = q := by
  obtain ⟨pl, pc⟩ := p
  obtain ⟨ql, qc⟩ := q
  simp only [toPosition, Liaison.Position.mk.injEq, Liaison.Position.IsBelowLimit, mk.injEq] at *
  omega

namespace Range

variable {a b c : Range}

theorem atMost_iff : a.atMost b = true ↔
    a.start.line < b.start.line ∨ a.start.line = b.start.line ∧ (a.start.character < b.start.character ∨
      a.start.character = b.start.character ∧ (a.stop.line < b.stop.line ∨
        a.stop.line = b.stop.line ∧ a.stop.character ≤ b.stop.character)) := by
  obtain ⟨⟨al, ac⟩, al', ac'⟩ := a
  obtain ⟨⟨bl, bc⟩, bl', bc'⟩ := b
  unfold atMost
  split <;> simp_all [Position.atMost]
  omega

theorem atMost_trans (hab : a.atMost b = true) (hbc : b.atMost c = true) : a.atMost c = true := by
  rw [atMost_iff] at *
  omega

theorem atMost_total (a b : Range) : (a.atMost b || b.atMost a) = true := by
  rw [Bool.or_eq_true, atMost_iff, atMost_iff]
  omega

theorem precedes_toRange (h : a.atMost b = true) (hlimit : a.toRange.start.IsBelowLimit) :
    a.toRange.Precedes b.toRange := by
  rw [atMost_iff] at h
  constructor
  · simp only [toRange, Position.toPosition, Liaison.Position.IsBelowLimit,
      Liaison.Position.before_eq_false_iff] at hlimit ⊢
    omega
  · intro hs he
    -- Below the limit the conversion is one-to-one.
    rw [Position.eq_of_toPosition_eq hs hlimit, Position.eq_of_toPosition_eq he hlimit] at h
    simp only [toRange, Position.toPosition, Liaison.Position.IsBelowLimit,
      Liaison.Position.before_eq_false_iff] at hlimit ⊢
    omega

end Range

end Wire

namespace RenameEdits

theorem pairwise_inOrder {edits : List Wire.TextEdit} (h : ∀ e ∈ inOrder edits, e.range.start.IsBelowLimit) :
    (inOrder edits).Pairwise fun a b => a.range.Precedes b.range := by
  have hsorted : (edits.mergeSort fun a b => a.range.atMost b.range).Pairwise fun a b => a.range.atMost b.range := by
    apply List.pairwise_mergeSort
    · exact fun _ _ _ => Wire.Range.atMost_trans
    · exact fun a b => a.range.atMost_total b.range
  rw [inOrder, List.pairwise_map]
  refine hsorted.imp_of_mem fun {a b} ha _ hab => ?_
  exact Wire.Range.precedes_toRange hab (h a.toTextEdit (List.mem_map_of_mem ha))

/-! ## Neighbours -/

variable {es : List TextEdit}

theorem overlap?_cons {a b : TextEdit} (h : overlap? (a :: b :: es) = none) :
    a.range.overlaps b.range = false ∧ overlap? (b :: es) = none := by
  unfold overlap? at h
  split at h
  · cases h
  · rename_i hn
    exact ⟨Bool.not_eq_true _ ▸ hn, h⟩

theorem pairwise_of_overlap?_eq_none (hs : es.Pairwise fun a b => a.range.Precedes b.range)
    (hback : ∀ p ∈ es.zip es.tail, ¬ p.2.range.RunsBackOver p.1.range) (h : overlap? es = none) :
    es.Pairwise fun a b => a.range.overlaps b.range = false := by
  induction es with
  | nil => exact .nil
  | cons a es ih =>
    cases es with
    | nil => exact List.pairwise_singleton _ a
    | cons b es =>
      obtain ⟨hn, hrest⟩ := overlap?_cons h
      obtain ⟨ha, hs⟩ := List.pairwise_cons.mp hs
      refine List.pairwise_cons.mpr ⟨?_, ih hs (fun p hp => hback p (List.mem_cons_of_mem _ hp)) hrest⟩
      intro c hc
      rcases List.mem_cons.mp hc with rfl | hc
      · exact hn
      · have hab : a.range.Precedes b.range := ha b List.mem_cons_self
        have hbc : b.range.Precedes c.range := (List.pairwise_cons.mp hs).1 c hc
        have hforth : ¬ b.range.RunsBackOver a.range := hback (a, b) List.mem_cons_self
        exact Range.overlaps_eq_false_of_neighbour hab hbc.start hn hforth

/-! ## Answers -/

theorem mem_files {v : Json} {r : RenameEdits} {f : FileEdits} (h : ofAnswer v = .ok r) (hf : f ∈ r.files) :
    ∃ edits, f.edits = inOrder edits ∧ overlap? f.edits = none := by
  unfold ofAnswer at h
  split at h
  · cases h
  · cases h
    cases hf
  · obtain ⟨i, hi, rfl⟩ := List.getElem_of_mem hf
    have hfiles := ofWorkspaceEdit_eq_ok_iff.mp h
    have hg := hfiles.get (hfiles.length_eq ▸ hi) hi
    obtain ⟨hnone, he⟩ := fileEdits_eq_ok_iff.mp hg
    exact ⟨_, congrArg FileEdits.edits he, (congrArg FileEdits.edits he).symm ▸ hnone⟩

/-- The edits of a document do not overlap, wherever they stand, if no edit runs back over the start of the one in
front of it and none starts where the conversion stops. -/
theorem overlaps_eq_false_of_ofAnswer {v : Json} {r : RenameEdits} {f : FileEdits} (h : ofAnswer v = .ok r)
    (hf : f ∈ r.files) (hback : ∀ p ∈ f.edits.zip f.edits.tail, ¬ p.2.range.RunsBackOver p.1.range)
    (hlimit : ∀ e ∈ f.edits, e.range.start.IsBelowLimit) (i j : Nat) (hi : i < f.edits.length)
    (hj : j < f.edits.length) (hij : i ≠ j) : f.edits[i].range.overlaps f.edits[j].range = false := by
  obtain ⟨edits, he, hnone⟩ := mem_files h hf
  have hs : f.edits.Pairwise fun a b => a.range.Precedes b.range := by
    rw [he] at hlimit ⊢
    exact pairwise_inOrder hlimit
  have hapart := List.pairwise_iff_getElem.mp (pairwise_of_overlap?_eq_none hs hback hnone)
  rcases Nat.lt_or_gt_of_ne hij with hlt | hlt
  · exact hapart i j hi hj hlt
  · rw [Range.overlaps_comm]
    exact hapart j i hj hi hlt

/-- Edits of one document, each with the columns that it starts and ends at, in the first line. -/
def inFirstLine (columns : List (Nat × Nat)) : Json :=
  let edits := columns.map fun c => Json.ofMembers
    [("newText", .str ""), ("range", (Wire.Range.mk ⟨0, c.1⟩ ⟨0, c.2⟩).toJson)]
  Json.ofMembers [("changes", Json.ofMembers [("file:///w/a.rs", .arr edits)])]

def readInFirstLine (columns : List (Nat × Nat)) : List Wire.TextEdit :=
  columns.map fun c => ⟨⟨⟨0, c.1⟩, ⟨0, c.2⟩⟩, ""⟩

def fileInFirstLine (columns : List (Nat × Nat)) : FileEdits :=
  ⟨"file:///w/a.rs", columns.map fun c => ⟨⟨⟨1, c.1 + 1⟩, ⟨1, c.2 + 1⟩⟩, ""⟩⟩

theorem ofAnswer_inFirstLine {columns ordered : List (Nat × Nat)}
    (hread : Wire.workspaceEdit (inFirstLine columns) =
      .ok (some ⟨some [("file:///w/a.rs", readInFirstLine columns)], none⟩))
    (hne : columns ≠ [])
    (hordered : inOrder (readInFirstLine columns) = (fileInFirstLine ordered).edits)
    (hnone : overlap? (fileInFirstLine ordered).edits = none) :
    ofAnswer (inFirstLine columns) = .ok ⟨[fileInFirstLine ordered]⟩ := by
  have hempty : (readInFirstLine columns).isEmpty = false := by simp [readInFirstLine, hne]
  have hgroups : groups [("file:///w/a.rs", readInFirstLine columns)] =
      [("file:///w/a.rs", readInFirstLine columns)] := by simp [groups, gather]
  rw [ofAnswer, hread]
  simp [ofWorkspaceEdit, Wire.WorkspaceEdit.documentEdits, hgroups, hempty, fileEdits, hordered, hnone]
  rfl

theorem overlaps_eq_false_insertion :
    ofAnswer (inFirstLine [(4, 9), (4, 4), (0, 4)]) = .ok ⟨[fileInFirstLine [(0, 4), (4, 4), (4, 9)]]⟩ ∧
      ((fileInFirstLine [(0, 4), (4, 4), (4, 9)]).edits[0].range.overlaps
        (fileInFirstLine [(0, 4), (4, 4), (4, 9)]).edits[2].range) = false := by
  have hordered : inOrder (readInFirstLine [(4, 9), (4, 4), (0, 4)]) =
      (fileInFirstLine [(0, 4), (4, 4), (4, 9)]).edits := by
    simp [inOrder, readInFirstLine, List.mergeSort, List.MergeSort.Internal.splitInTwo, Wire.Range.atMost,
      Wire.Position.atMost]
    decide
  have h := ofAnswer_inFirstLine rfl (by simp) hordered (by decide)
  exact ⟨h, overlaps_eq_false_of_ofAnswer h (List.mem_singleton_self _) (by decide) (by decide) 0 2 (by decide)
    (by decide) (by decide)⟩

/-- The edit from the sixth column runs back to the first one, and so the first edit and the last are never compared. -/
example : ofAnswer (inFirstLine [(0, 10), (5, 0), (6, 7)]) = .ok ⟨[fileInFirstLine [(0, 10), (5, 0), (6, 7)]]⟩ ∧
    (fileInFirstLine [(0, 10), (5, 0), (6, 7)]).edits[0].range.overlaps
      (fileInFirstLine [(0, 10), (5, 0), (6, 7)]).edits[2].range = true := by
  have hordered : inOrder (readInFirstLine [(0, 10), (5, 0), (6, 7)]) =
      (fileInFirstLine [(0, 10), (5, 0), (6, 7)]).edits := by
    simp [inOrder, readInFirstLine, List.mergeSort, List.MergeSort.Internal.splitInTwo, Wire.Range.atMost,
      Wire.Position.atMost]
    decide
  exact ⟨ofAnswer_inFirstLine rfl (by simp) hordered (by decide), by decide⟩

end RenameEdits

end Liaison
