import Liaison.Proofs.Rename.Overlap
import Liaison.Proofs.Text.ByteOrder

/-!
# Edits in normal form

If the ranges run forwards, then comparing neighbours finds every overlap: an edit of the workspace is refused exactly
if two edits of one document overlap. What is not refused comes back whole, by document, in source order, and
one-indexed.
-/

namespace Liaison

namespace Wire

variable {a b : TextEdit}

/-- The edits of a document: those of its changes in the list of changes if there is one, and else those by
document. -/
def WorkspaceEdit.editsAt (uri : String) (w : WorkspaceEdit) : List TextEdit :=
  match w.documentChanges, w.changes with
  | some changes, _ =>
    changes.flatMap fun
      | .edit u edits => if u = uri then edits else []
      | .resource _ => []
  | none, some changes => changes.flatMap fun d => if d.1 = uri then d.2 else []
  | none, none => []

def WorkspaceEdit.empty : WorkspaceEdit :=
  ⟨none, none⟩

theorem WorkspaceEdit.editsOf_documentEdits (uri : String) (w : WorkspaceEdit) :
    editsOf uri w.documentEdits = w.editsAt uri := by
  obtain ⟨changes, documentChanges⟩ := w
  cases documentChanges with
  | none => cases changes <;> rfl
  | some items =>
    unfold documentEdits editsAt
    induction items with
    | nil => rfl
    | cons item items ih => cases item <;> simp_all

def Position.oneIndexed (p : Position) : Liaison.Position :=
  ⟨p.line + 1, p.character + 1⟩

def TextEdit.oneIndexed (e : TextEdit) : Liaison.TextEdit :=
  ⟨⟨e.range.start.oneIndexed, e.range.stop.oneIndexed⟩, e.newText⟩

def Position.IsBelowLimit (p : Position) : Prop :=
  p.line < maxCoordinate ∧ p.character < maxCoordinate

/-- The edit does not run backwards, and its coordinates are below the largest. -/
def TextEdit.IsForward (e : TextEdit) : Prop :=
  e.range.start.atMost e.range.stop = true ∧ e.range.start.IsBelowLimit ∧ e.range.stop.IsBelowLimit

instance (p : Position) : Decidable p.IsBelowLimit :=
  inferInstanceAs (Decidable (_ ∧ _))

instance (e : TextEdit) : Decidable e.IsForward :=
  inferInstanceAs (Decidable (_ ∧ _ ∧ _))

theorem Position.IsBelowLimit.toPosition_eq {p : Position} (h : p.IsBelowLimit) : p.toPosition = p.oneIndexed := by
  rw [toPosition, oneIndexed, Nat.min_eq_left h.1, Nat.min_eq_left h.2]

theorem TextEdit.IsForward.toTextEdit_eq (h : a.IsForward) : a.toTextEdit = a.oneIndexed := by
  obtain ⟨-, hstart, hstop⟩ := h
  rw [toTextEdit, oneIndexed, Range.toRange, hstart.toPosition_eq, hstop.toPosition_eq]

theorem TextEdit.IsForward.not_runsBackOver (h : a.IsForward) (r : Liaison.Range) :
    ¬ a.oneIndexed.range.RunsBackOver r := by
  have hforward := h.1
  intro hback
  have hbefore := hback.1
  simp only [oneIndexed, Position.oneIndexed, Position.atMost, Liaison.Position.before_iff, Bool.or_eq_true,
    Bool.and_eq_true, decide_eq_true_eq] at hforward hbefore
  omega

theorem TextEdit.precedes_oneIndexed (h : a.range.atMost b.range = true) :
    a.oneIndexed.range.Precedes b.oneIndexed.range := by
  rw [Range.atMost_iff] at h
  constructor
  · simp only [oneIndexed, Position.oneIndexed, Liaison.Position.before_eq_false_iff]
    omega
  · simp only [oneIndexed, Position.oneIndexed, Liaison.Position.before_eq_false_iff, Liaison.Position.mk.injEq]
    omega

theorem TextEdit.compare_oneIndexed (h : a.range.atMost b.range = true) :
    a.oneIndexed.range.compare b.oneIndexed.range ≠ .gt := by
  rw [Range.atMost_iff] at h
  simp only [Liaison.Range.compare, Liaison.Position.compare, oneIndexed, Position.oneIndexed, ne_eq,
    Ordering.then_eq_gt, Nat.compare_eq_gt, Nat.compare_eq_eq, Ordering.then_eq_eq]
  omega

theorem TextEdit.range_eq_of_oneIndexed (h : a.oneIndexed.range = b.oneIndexed.range) : a.range = b.range := by
  obtain ⟨⟨⟨al, ac⟩, al', ac'⟩, at'⟩ := a
  obtain ⟨⟨⟨bl, bc⟩, bl', bc'⟩, bt⟩ := b
  simp_all [oneIndexed, Position.oneIndexed]

end Wire

namespace RenameEdits

open Wire (WorkspaceEdit)

/-! ## Source order -/

variable {edits : List Wire.TextEdit}

theorem inOrder_eq (h : ∀ e ∈ edits, e.IsForward) :
    inOrder edits = (edits.mergeSort fun a b => a.range.atMost b.range).map Wire.TextEdit.oneIndexed :=
  List.map_congr_left fun e he => (h e (List.mem_mergeSort.mp he)).toTextEdit_eq

theorem pairwise_mergeSort_atMost (edits : List Wire.TextEdit) :
    (edits.mergeSort fun a b => a.range.atMost b.range).Pairwise fun a b => a.range.atMost b.range := by
  apply List.pairwise_mergeSort
  · exact fun _ _ _ => Wire.Range.atMost_trans
  · exact fun a b => a.range.atMost_total b.range

theorem filter_mergeSort {α : Type} {le : α → α → Bool}
    (htrans : ∀ a b c, le a b = true → le b c = true → le a c = true) (htotal : ∀ a b, (le a b || le b a) = true)
    {p : α → Bool} (hlevel : ∀ a b, p a = true → p b = true → le a b = true) (xs : List α) :
    (xs.mergeSort le).filter p = xs.filter p := by
  have hp : (xs.filter p).Pairwise fun a b => le a b = true :=
    List.pairwise_filter.mpr (List.pairwise_of_forall fun a b => hlevel a b)
  -- They are in order before the list is sorted, so they are a sublist of it after, and just as many.
  have hsub : (xs.filter p).Sublist ((xs.mergeSort le).filter p) := by
    have hkept := (List.sublist_mergeSort htrans htotal hp List.filter_sublist).filter p
    simpa only [List.filter_filter, Bool.and_self] using hkept
  exact (hsub.eq_of_length ((List.mergeSort_perm xs le).filter p).length_eq.symm).symm

theorem filter_inOrder (h : ∀ e ∈ edits, e.IsForward) (range : Range) :
    (inOrder edits).filter (·.range = range) = (edits.map Wire.TextEdit.oneIndexed).filter (·.range = range) := by
  rw [inOrder_eq h, List.filter_map, List.filter_map]
  congr 1
  apply filter_mergeSort
  · exact fun _ _ _ => Wire.Range.atMost_trans
  · exact fun a b => a.range.atMost_total b.range
  · intro a b ha hb
    have hrange : a.range = b.range := by
      apply Wire.TextEdit.range_eq_of_oneIndexed
      simp_all
    rw [hrange, ← Bool.or_self (b.range.atMost b.range)]
    exact b.range.atMost_total b.range

/-! ## Neighbours -/

theorem overlap?_eq_none_of_pairwise {es : List TextEdit}
    (h : es.Pairwise fun a b => a.range.overlaps b.range = false) : overlap? es = none := by
  fun_induction overlap? es with
  | case1 a b rest hover =>
    simp_all
  | case2 a b rest _ ih => exact ih h.of_cons
  | case3 => rfl

def Apart (edits : List Wire.TextEdit) : Prop :=
  (edits.map Wire.TextEdit.oneIndexed).Pairwise fun a b => a.range.overlaps b.range = false

instance (edits : List Wire.TextEdit) : Decidable (Apart edits) :=
  inferInstanceAs (Decidable (List.Pairwise _ _))

theorem overlap?_inOrder_eq_none_iff (h : ∀ e ∈ edits, e.IsForward) :
    overlap? (inOrder edits) = none ↔ Apart edits := by
  have hperm : (inOrder edits).Perm (edits.map Wire.TextEdit.oneIndexed) := by
    rw [inOrder_eq h]
    exact (List.mergeSort_perm edits _).map _
  have hsymm : ∀ {a b : TextEdit}, a.range.overlaps b.range = false → b.range.overlaps a.range = false :=
    fun {a b} hab => Range.overlaps_comm b.range a.range ▸ hab
  rw [Apart, ← hperm.pairwise_iff hsymm]
  refine ⟨fun hnone => ?_, overlap?_eq_none_of_pairwise⟩
  apply pairwise_of_overlap?_eq_none _ _ hnone
  · rw [inOrder_eq h, List.pairwise_map]
    exact (pairwise_mergeSort_atMost edits).imp Wire.TextEdit.precedes_oneIndexed
  · intro p hp
    have hmem : p.2 ∈ inOrder edits := List.mem_of_mem_tail (List.of_mem_zip hp).2
    obtain ⟨e, he, hpe⟩ := List.mem_map.mp (hperm.mem_iff.mp hmem)
    rw [← hpe]
    exact (h e he).not_runsBackOver _

/-! ## Groups -/

section
variable {g : String × List Wire.TextEdit} {gs ds : List (String × List Wire.TextEdit)}

theorem editsOf_eq_of_mem (hgs : gs.Pairwise (·.1 < ·.1)) (hg : g ∈ gs) : editsOf g.1 gs = g.2 := by
  induction gs with
  | nil => cases hg
  | cons g' gs ih =>
    obtain ⟨hfirst, hgs⟩ := List.pairwise_cons.mp hgs
    rcases List.mem_cons.mp hg with rfl | hg
    · simp [editsOf_eq_nil hfirst]
    · simp [ih hgs hg, ne_of_lt (hfirst g hg)]

theorem exists_mem_of_editsOf_ne_nil {uri : String} (h : editsOf uri gs ≠ []) : ∃ g ∈ gs, g.1 = uri := by
  by_contra hnone
  push Not at hnone
  refine h (List.flatMap_eq_nil_iff.mpr fun g hg => ?_)
  simp [hnone g hg]

/-- The groups with an edit are the documents with an edit, each with all of its edits. -/
theorem mem_filter_groups_iff :
    g ∈ (groups ds).filter (!·.2.isEmpty) ↔ editsOf g.1 ds = g.2 ∧ g.2 ≠ [] := by
  rw [List.mem_filter, Bool.not_eq_true', List.isEmpty_eq_false_iff]
  refine and_congr_left fun hne => ⟨fun hg => ?_, fun hedits => ?_⟩
  · rw [← editsOf_groups]
    exact editsOf_eq_of_mem (pairwise_groups ds) hg
  · have hgroups : editsOf g.1 (groups ds) ≠ [] := by rwa [editsOf_groups, hedits]
    obtain ⟨g', hg', huri⟩ := exists_mem_of_editsOf_ne_nil hgroups
    have hsame : g' = g := by
      refine Prod.ext huri ?_
      rw [← editsOf_eq_of_mem (pairwise_groups ds) hg', editsOf_groups, huri, hedits]
    rwa [← hsame]

end

/-! ## Answers -/

section
variable {w : WorkspaceEdit} {r : RenameEdits}

theorem ofWorkspaceEdit_eq_ok_iff_files : ofWorkspaceEdit w = .ok r ↔
    (∀ g ∈ (groups w.documentEdits).filter (!·.2.isEmpty), overlap? (inOrder g.2) = none) ∧
      ((groups w.documentEdits).filter (!·.2.isEmpty)).map (fun g => ⟨g.1, inOrder g.2⟩) = r.files := by
  simp only [ofWorkspaceEdit_eq_ok_iff, fileEdits_eq_ok_iff, List.forall₂_and_left]
  rw [← List.forall₂_eq_eq_eq, List.forall₂_map_left_iff]
  simp only [eq_comm]

theorem exists_ofWorkspaceEdit_iff :
    (∃ r, ofWorkspaceEdit w = .ok r) ↔ ∀ uri, overlap? (inOrder (w.editsAt uri)) = none := by
  simp only [← w.editsOf_documentEdits]
  constructor
  · rintro ⟨r, hr⟩ uri
    by_cases hne : editsOf uri w.documentEdits = []
    · simp [hne, overlap?]
    · exact (ofWorkspaceEdit_eq_ok_iff_files.mp hr).1 (uri, _) (mem_filter_groups_iff.mpr ⟨rfl, hne⟩)
  · intro hnone
    refine ⟨⟨_⟩, ofWorkspaceEdit_eq_ok_iff_files.mpr ⟨fun g hg => ?_, rfl⟩⟩
    rw [← (mem_filter_groups_iff.mp hg).1]
    exact hnone g.1

/-- The answer has the documents with an edit, in the order of their URIs' bytes. Each has all of its edits as callers
count, and they are in order of their ranges. Edits of one range are in the server's order. -/
structure IsNormal (r : RenameEdits) (editsAt : String → List Wire.TextEdit) : Prop where
  ascending : r.files.Pairwise fun f f' => Utf8.ofString f.uri < Utf8.ofString f'.uri
  uris (uri : String) : uri ∈ r.files.map FileEdits.uri ↔ editsAt uri ≠ []
  perm : ∀ f ∈ r.files, f.edits.Perm ((editsAt f.uri).map Wire.TextEdit.oneIndexed)
  sorted : ∀ f ∈ r.files, f.edits.Pairwise fun a b => a.range.compare b.range ≠ .gt
  stable : ∀ f ∈ r.files, ∀ range, f.edits.filter (·.range = range) =
    ((editsAt f.uri).map Wire.TextEdit.oneIndexed).filter (·.range = range)

theorem isNormal_ofWorkspaceEdit (hforward : ∀ uri, ∀ e ∈ w.editsAt uri, e.IsForward)
    (h : ofWorkspaceEdit w = .ok r) : r.IsNormal w.editsAt := by
  have hfiles := (ofWorkspaceEdit_eq_ok_iff_files.mp h).2
  have hmem : ∀ f ∈ r.files, f.edits = inOrder (w.editsAt f.uri) ∧ w.editsAt f.uri ≠ [] := by
    intro f hf
    rw [← hfiles] at hf
    obtain ⟨g, hg, rfl⟩ := List.mem_map.mp hf
    obtain ⟨hedits, hne⟩ := mem_filter_groups_iff.mp hg
    rw [← w.editsOf_documentEdits, hedits]
    exact ⟨rfl, hne⟩
  refine ⟨?_, fun uri => ⟨?_, ?_⟩, fun f hf => ?_, fun f hf => ?_, fun f hf range => ?_⟩
  · simp only [Utf8.ofString_lt_iff, ← hfiles, List.pairwise_map]
    exact (pairwise_groups w.documentEdits).filter _
  · intro huri
    obtain ⟨f, hf, rfl⟩ := List.mem_map.mp huri
    exact (hmem f hf).2
  · intro hne
    rw [← w.editsOf_documentEdits] at hne
    have hg : (uri, editsOf uri w.documentEdits) ∈ (groups w.documentEdits).filter (!·.2.isEmpty) :=
      mem_filter_groups_iff.mpr ⟨rfl, hne⟩
    rw [← hfiles, List.map_map]
    exact List.mem_map_of_mem hg
  · rw [(hmem f hf).1, inOrder_eq (hforward f.uri)]
    exact (List.mergeSort_perm _ _).map _
  · rw [(hmem f hf).1, inOrder_eq (hforward f.uri), List.pairwise_map]
    exact (pairwise_mergeSort_atMost _).imp Wire.TextEdit.compare_oneIndexed
  · rw [(hmem f hf).1]
    exact filter_inOrder (hforward f.uri) range

end

/-- An edit of the workspace whose ranges run forwards is accepted exactly if no two edits of one document overlap,
and what it is accepted as is its normal form. An answer of null has no edits. -/
theorem ofAnswer_normal {v : Json} {w? : Option WorkspaceEdit} (hdecode : Wire.workspaceEdit v = .ok w?)
    (hforward : ∀ uri, ∀ e ∈ (w?.getD .empty).editsAt uri, e.IsForward) :
    ((∃ r, ofAnswer v = .ok r) ↔ ∀ uri, Apart ((w?.getD .empty).editsAt uri)) ∧
      ∀ r, ofAnswer v = .ok r → r.IsNormal (w?.getD .empty).editsAt := by
  have hanswer : ofAnswer v = ofWorkspaceEdit (w?.getD .empty) := by
    rw [ofAnswer, hdecode]
    cases w? <;> rfl
  simp only [hanswer]
  refine ⟨?_, fun r => isNormal_ofWorkspaceEdit hforward⟩
  rw [exists_ofWorkspaceEdit_iff]
  exact forall_congr' fun uri => overlap?_inOrder_eq_none_iff (hforward uri)

/-- Three changes of two documents, all in their first lines. Two of them insert at one place. -/
def insertions : List (String × List Wire.TextEdit) :=
  let edit := fun (start stop : Nat) (text : String) => Wire.TextEdit.mk ⟨⟨0, start⟩, ⟨0, stop⟩⟩ text
  [("file:///w/b.rs", [edit 4 9 "late", edit 4 4 "one"]), ("file:///w/a.rs", [edit 0 2 ""]),
    ("file:///w/b.rs", [edit 4 4 "two", edit 0 4 "early"])]

def ofChanges (changes : List (String × List Wire.TextEdit)) : Json :=
  let edit := fun (e : Wire.TextEdit) => Json.ofMembers [("newText", .str e.newText), ("range", e.range.toJson)]
  let change := fun (d : String × List Wire.TextEdit) => Json.ofMembers
    [("edits", .arr (d.2.map edit)), ("textDocument", Json.ofMembers [("uri", .str d.1)])]
  Json.ofMembers [("documentChanges", .arr (changes.map change))]

theorem ofAnswer_normal_insertions : ∃ w : WorkspaceEdit,
    Wire.workspaceEdit (ofChanges insertions) = .ok (some w) ∧ (∀ uri, ∀ e ∈ w.editsAt uri, e.IsForward) ∧
      ∃ r, ofAnswer (ofChanges insertions) = .ok r ∧ r.IsNormal w.editsAt := by
  have hdecode : Wire.workspaceEdit (ofChanges insertions) =
      .ok (some ⟨none, some (insertions.map fun d => .edit d.1 d.2)⟩) := by
    decide +kernel
  have hedits : ∀ uri, (WorkspaceEdit.mk none (some (insertions.map fun d => .edit d.1 d.2))).editsAt uri =
      insertions.flatMap fun d => if d.1 = uri then d.2 else [] :=
    fun _ => rfl
  have hforward : ∀ uri, ∀ e ∈ insertions.flatMap (fun d => if d.1 = uri then d.2 else []), e.IsForward := by
    intro uri e he
    obtain ⟨d, hd, he⟩ := List.mem_flatMap.mp he
    have hall : ∀ d ∈ insertions, ∀ e ∈ d.2, e.IsForward := by decide
    split at he
    · exact hall d hd e he
    · cases he
  have hapart : ∀ uri, Apart (insertions.flatMap fun d => if d.1 = uri then d.2 else []) := by
    intro uri
    by_cases hb : "file:///w/b.rs" = uri
    · subst hb
      decide
    · by_cases ha : "file:///w/a.rs" = uri
      · subst ha
        decide
      · simp [insertions, hb, ha, Apart]
  simp only [← hedits] at hforward hapart
  obtain ⟨haccepted, hnormal⟩ := ofAnswer_normal hdecode hforward
  obtain ⟨r, hr⟩ := haccepted.mpr hapart
  exact ⟨_, hdecode, hforward, r, hr, hnormal r hr⟩

end RenameEdits

end Liaison
