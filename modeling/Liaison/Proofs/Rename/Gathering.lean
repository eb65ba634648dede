import Liaison.Answer.Rename
import Liaison.Proofs.Json.Decode
import Mathlib.Data.String.Basic

/-!
# Gathering edits

The edits of a document are those of all changes of it, in source order. What is no change of a document is left
out, whatever it is, and the answer is the same as without it.
-/

namespace Liaison

def editsOf (uri : String) (ds : List (String × List Wire.TextEdit)) : List Wire.TextEdit :=
  ds.flatMap fun d => if d.1 = uri then d.2 else []

section
variable {uri u : String} {edits : List Wire.TextEdit} {g : String × List Wire.TextEdit}
  {gs ds : List (String × List Wire.TextEdit)}

@[simp] theorem editsOf_nil : editsOf u [] = [] := rfl

@[simp] theorem editsOf_cons : editsOf u (g :: gs) = (if g.1 = u then g.2 else []) ++ editsOf u gs := rfl

theorem editsOf_eq_nil (h : ∀ g ∈ gs, uri < g.1) : editsOf uri gs = [] := by
  unfold editsOf
  rw [List.flatMap_eq_nil_iff]
  intro g hg
  simp [ne_of_gt (h g hg)]

/-! ## Groups -/

namespace RenameEdits

theorem mem_gather (h : g ∈ gather uri edits gs) : g.1 = uri ∨ g ∈ gs := by
  induction gs with
  | nil => simp_all [gather]
  | cons g' gs ih => grind [gather]

theorem pairwise_gather (uri : String) (edits : List Wire.TextEdit) (h : gs.Pairwise (·.1 < ·.1)) :
    (gather uri edits gs).Pairwise (·.1 < ·.1) := by
  induction gs with
  | nil => simp [gather]
  | cons g gs ih =>
    obtain ⟨hg, hgs⟩ := List.pairwise_cons.mp h
    unfold gather
    split
    · rename_i hlt
      refine List.pairwise_cons.mpr ⟨?_, h⟩
      intro g' hg'
      rcases List.mem_cons.mp hg' with rfl | hg'
      · exact hlt
      · exact lt_trans hlt (hg g' hg')
    · split
      · rename_i heq
        exact List.pairwise_cons.mpr ⟨fun g' hg' => heq ▸ hg g' hg', hgs⟩
      · rename_i hlt hne
        refine List.pairwise_cons.mpr ⟨?_, ih hgs⟩
        intro g' hg'
        rcases mem_gather hg' with he | hg'
        · rw [he]
          exact lt_of_le_of_ne (not_lt.mp hlt) (Ne.symm hne)
        · exact hg g' hg'

theorem editsOf_gather (u uri : String) (edits : List Wire.TextEdit) (h : gs.Pairwise (·.1 < ·.1)) :
    editsOf u (gather uri edits gs) = editsOf u gs ++ if uri = u then edits else [] := by
  induction gs with
  | nil => simp [gather]
  | cons g gs ih =>
    obtain ⟨hg, hgs⟩ := List.pairwise_cons.mp h
    unfold gather
    split
    · rename_i hlt
      by_cases hu : uri = u
      · -- The document is new, and nothing behind it is about it.
        subst hu
        have hnone : editsOf uri gs = [] := editsOf_eq_nil fun g' hg' => lt_trans hlt (hg g' hg')
        simp [hnone, ne_of_gt hlt]
      · simp [hu]
    · split
      · rename_i heq
        by_cases hu : g.1 = u
        · have hnone : editsOf u gs = [] := editsOf_eq_nil (hu ▸ hg)
          simp [heq, hu, hnone]
        · simp [heq, hu]
      · simp [ih hgs]

theorem pairwise_foldl_gather (h : gs.Pairwise (·.1 < ·.1)) :
    (ds.foldl (fun groups d => gather d.1 d.2 groups) gs).Pairwise (·.1 < ·.1) := by
  induction ds generalizing gs with
  | nil => exact h
  | cons d ds ih => exact ih (pairwise_gather d.1 d.2 h)

theorem editsOf_foldl_gather (h : gs.Pairwise (·.1 < ·.1)) :
    editsOf u (ds.foldl (fun groups d => gather d.1 d.2 groups) gs) = editsOf u gs ++ editsOf u ds := by
  induction ds generalizing gs with
  | nil => simp
  | cons d ds ih =>
    rw [List.foldl_cons, ih (pairwise_gather d.1 d.2 h), editsOf_gather u d.1 d.2 h, editsOf_cons, List.append_assoc]

theorem pairwise_groups (ds : List (String × List Wire.TextEdit)) : (groups ds).Pairwise (·.1 < ·.1) :=
  pairwise_foldl_gather .nil

@[simp] theorem editsOf_groups (u : String) (ds : List (String × List Wire.TextEdit)) :
    editsOf u (groups ds) = editsOf u ds :=
  editsOf_foldl_gather .nil

end RenameEdits

end

/-! ## Files -/

namespace RenameEdits

def editsFor (r : RenameEdits) (uri : String) : List TextEdit :=
  (r.files.filter (·.uri = uri)).flatMap (·.edits)

@[simp] theorem inOrder_nil : inOrder [] = [] := by
  simp [inOrder]

theorem inOrder_perm (edits : List Wire.TextEdit) : (inOrder edits).Perm (edits.map Wire.TextEdit.toTextEdit) :=
  (List.mergeSort_perm edits _).map _

theorem fileEdits_eq_ok_iff {uri : String} {edits : List Wire.TextEdit} {f : FileEdits} :
    fileEdits uri edits = .ok f ↔ overlap? (inOrder edits) = none ∧ f = ⟨uri, inOrder edits⟩ := by
  unfold fileEdits
  cases overlap? (inOrder edits) <;> simp [eq_comm]

theorem ofWorkspaceEdit_eq_ok_iff {w : Wire.WorkspaceEdit} {r : RenameEdits} :
    ofWorkspaceEdit w = .ok r ↔ List.Forall₂ (fun g f => fileEdits g.1 g.2 = .ok f)
      ((groups w.documentEdits).filter (!·.2.isEmpty)) r.files := by
  rw [← mapM_eq_ok_iff, ofWorkspaceEdit]
  obtain ⟨files⟩ := r
  cases ((groups w.documentEdits).filter (!·.2.isEmpty)).mapM fun g => fileEdits g.1 g.2 <;> simp [Except.map]

theorem flatMap_files {gs : List (String × List Wire.TextEdit)} {fs : List FileEdits} (hgs : gs.Pairwise (·.1 < ·.1))
    (h : List.Forall₂ (fun g f => fileEdits g.1 g.2 = .ok f) (gs.filter (!·.2.isEmpty)) fs) (uri : String) :
    (fs.filter (·.uri = uri)).flatMap (·.edits) = inOrder (editsOf uri gs) := by
  induction gs generalizing fs with
  | nil =>
    cases h
    simp
  | cons g gs ih =>
    obtain ⟨hg, hgs⟩ := List.pairwise_cons.mp hgs
    by_cases hempty : g.2 = []
    · rw [List.filter_cons_of_neg (by simp [hempty])] at h
      simp [ih hgs h, hempty]
    · rw [List.filter_cons_of_pos (by simp [hempty])] at h
      obtain _ | ⟨hf, h⟩ := h
      obtain ⟨-, rfl⟩ := fileEdits_eq_ok_iff.mp hf
      by_cases hu : g.1 = uri
      · have hnone : editsOf uri gs = [] := editsOf_eq_nil (hu ▸ hg)
        simp [ih hgs h, hu, hnone]
      · simp [ih hgs h, hu]

/-- A document's edits in the answer are all those that the server gave for it, in source order. -/
theorem editsFor_of_ofWorkspaceEdit {w : Wire.WorkspaceEdit} {r : RenameEdits} (h : ofWorkspaceEdit w = .ok r)
    (uri : String) : r.editsFor uri = inOrder (editsOf uri w.documentEdits) := by
  have hfiles := flatMap_files (pairwise_groups w.documentEdits) (ofWorkspaceEdit_eq_ok_iff.mp h) uri
  rwa [editsOf_groups] at hfiles

end RenameEdits

/-! ## Lists of changes -/

namespace Wire

def DocumentChange.ofItem (item : Json) : DocumentChange :=
  match documentEdit item with
  | .ok change => change
  | .error _ => .resource item

def isDocumentEdit (item : Json) : Bool :=
  (documentEdit item).isOk

/-- The edits of a document that an item of a list of changes has. -/
def editsIn (uri : String) (item : Json) : List TextEdit :=
  match documentEdit item with
  | .ok (.edit u edits) => if u = uri then edits else []
  | _ => []

theorem documentChange_eq (item : Json) : documentChange item = .ok (.ofItem item) := by
  unfold DocumentChange.ofItem
  simp only [documentChange, Decoder.oneOf, Decoder.as, Except.map]
  cases documentEdit item <;> rfl

theorem mapM_documentChange (items : List Json) :
    items.mapM documentChange = .ok (items.map DocumentChange.ofItem) := by
  rw [mapM_eq_ok_iff, List.forall₂_map_right_iff, List.forall₂_same]
  exact fun item _ => documentChange_eq item

namespace WorkspaceEdit

variable {changes : Option (List (String × List TextEdit))}

def ofItems (changes : Option (List (String × List TextEdit))) (items : List Json) : WorkspaceEdit :=
  ⟨changes, some (items.map .ofItem)⟩

theorem editsOf_ofItems (uri : String) (items : List Json) :
    editsOf uri (ofItems changes items).documentEdits = items.flatMap (editsIn uri) := by
  dsimp only [ofItems, documentEdits]
  induction items with
  | nil => rfl
  | cons item items ih =>
    rw [List.map_cons, List.filterMap_cons, List.flatMap_cons, ← ih]
    unfold DocumentChange.ofItem editsIn
    cases documentEdit item with
    | error e => simp
    | ok change => cases change <;> simp

theorem documentEdits_filter (items : List Json) :
    (ofItems changes (items.filter isDocumentEdit)).documentEdits = (ofItems changes items).documentEdits := by
  dsimp only [ofItems, documentEdits]
  induction items with
  | nil => rfl
  | cons item items ih =>
    cases h : documentEdit item with
    | error e =>
      have hout : isDocumentEdit item = false := by simp [isDocumentEdit, h, Except.isOk, Except.toBool]
      simp_all [DocumentChange.ofItem]
    | ok change =>
      have hin : isDocumentEdit item = true := by simp [isDocumentEdit, h, Except.isOk, Except.toBool]
      simp_all [List.filterMap_cons]

end WorkspaceEdit

end Wire

namespace RenameEdits

variable {members : List (String × Json)} {items : List Json} {r : RenameEdits}

/-- Of an object with a list of changes nothing but the list is used, as long as the rest decodes. -/
theorem ofAnswer_obj_iff (hitems : Table.get? "documentChanges" members = some (.arr items)) :
    ofAnswer (.obj members) = .ok r ↔
      ∃ changes, (Record.fieldOpt "changes" (.map (.list Wire.textEdit))).find (Table.get? · members) = .all changes ∧
        ofWorkspaceEdit (.ofItems changes items) = .ok r := by
  have hlist : (Record.fieldOpt "documentChanges" (.list Wire.documentChange)).find (Table.get? · members) =
      .all (some (items.map .ofItem)) := by
    simp [Record.fieldOpt, Record.fieldWith, hitems, Decoder.optional, Decoder.list, Wire.mapM_documentChange,
      Except.map]
  have hdecode : Wire.workspaceEdit (.obj members) = (((Fields.all Wire.WorkspaceEdit.mk).apply
      ((Record.fieldOpt "changes" (.map (.list Wire.textEdit))).find (Table.get? · members))).apply
        (.all (some (items.map .ofItem)))).result.map some := by
    rw [← hlist]
    rfl
  unfold ofAnswer
  rw [hdecode]
  cases (Record.fieldOpt "changes" (.map (.list Wire.textEdit))).find (Table.get? · members) <;>
    simp [Fields.apply, Fields.result, Except.map, Wire.WorkspaceEdit.ofItems]

/-- A list of changes makes an answer of all edits in those of its items that are changes of a document, each under
the document's URI. The other items may be anything: the answer is the same without them. -/
theorem ofAnswer_documentChanges (hitems : Table.get? "documentChanges" members = some (.arr items))
    (h : ofAnswer (.obj members) = .ok r) :
    (∀ uri, (r.editsFor uri).Perm ((items.flatMap (Wire.editsIn uri)).map Wire.TextEdit.toTextEdit)) ∧
      ofAnswer (.obj (Table.insert "documentChanges" (.arr (items.filter Wire.isDocumentEdit)) members)) = .ok r := by
  obtain ⟨changes, hchanges, hr⟩ := (ofAnswer_obj_iff hitems).mp h
  constructor
  · intro uri
    rw [editsFor_of_ofWorkspaceEdit hr uri, Wire.WorkspaceEdit.editsOf_ofItems]
    exact inOrder_perm _
  · refine (ofAnswer_obj_iff (by rw [Table.get?_insert, if_pos rfl])).mpr ⟨changes, ?_, ?_⟩
    · rw [← hchanges]
      simp [Record.fieldOpt, Record.fieldWith]
    · rwa [ofWorkspaceEdit, Wire.WorkspaceEdit.documentEdits_filter, ← ofWorkspaceEdit]

/-- Changes of two documents, of which the second has an edit without a text. -/
def withoutText : List (String × Json) :=
  let range := ("range", (Wire.Range.mk ⟨0, 0⟩ ⟨0, 4⟩).toJson)
  let change := fun (uri : String) (edit : List (String × Json)) => Json.ofMembers
    [("edits", .arr [Json.ofMembers edit]), ("textDocument", Json.ofMembers [("uri", .str uri)])]
  [("documentChanges",
    .arr [change "file:///w/a.rs" [("newText", .str "new"), range], change "file:///w/b.rs" [range]])]

/-- The second change is neither refused nor made. -/
theorem ofAnswer_withoutText :
    ∃ items r, Table.get? "documentChanges" withoutText = some (.arr items) ∧ ofAnswer (.obj withoutText) = .ok r ∧
      r = ⟨[⟨"file:///w/a.rs", [⟨⟨⟨1, 1⟩, ⟨1, 5⟩⟩, "new"⟩]⟩]⟩ ∧
      (∀ uri, (r.editsFor uri).Perm ((items.flatMap (Wire.editsIn uri)).map Wire.TextEdit.toTextEdit)) ∧
      ofAnswer (.obj (Table.insert "documentChanges" (.arr (items.filter Wire.isDocumentEdit)) withoutText)) =
        .ok r := by
  have h : ofAnswer (.obj withoutText) = .ok ⟨[⟨"file:///w/a.rs", [⟨⟨⟨1, 1⟩, ⟨1, 5⟩⟩, "new"⟩]⟩]⟩ := by decide +kernel
  obtain ⟨hedits, hwithout⟩ := ofAnswer_documentChanges rfl h
  exact ⟨_, _, rfl, h, rfl, hedits, hwithout⟩

end RenameEdits

end Liaison
