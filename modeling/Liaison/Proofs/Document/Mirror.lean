import Liaison.Document.Store
import Liaison.Proofs.Document.Change
import Liaison.Proofs.Message.RoundTrip
import Mathlib.Data.List.Induction

/-!
# A server's copies

What the protocol asks of a server that is told about documents. A server reads positions as lines that
end with a line feed and columns in UTF-16 units, and it takes versions of 32 bits only. What it is told
has to fit what it holds; otherwise it is lost.
-/

namespace Liaison

open TextChange

/-! ## Positions in a text -/

/-- Parts a text at a position. There is no position past the end of a line or within a character. -/
def splitAt? : List Char → (line character : Nat) → Option (List Char × List Char)
  | [], line, character => if line = 0 ∧ character = 0 then some ([], []) else none
  | c :: cs, line, character =>
    if line = 0 ∧ character = 0 then some ([], c :: cs)
    else if c = '\n' then
      if line = 0 then none
      else (splitAt? cs (line - 1) character).map fun p => (c :: p.1, p.2)
    else if line ≠ 0 then (splitAt? cs line character).map fun p => (c :: p.1, p.2)
    else if units c ≤ character then
      (splitAt? cs 0 (character - units c)).map fun p => (c :: p.1, p.2)
    else none

def replace? (cs : List Char) (r : Wire.Range) (new : List Char) : Option (List Char) := do
  let (before, _) ← splitAt? cs r.start.line r.start.character
  let (upTo, after) ← splitAt? cs r.stop.line r.stop.character
  if before.length ≤ upTo.length then some (before ++ new ++ after) else none

theorem units_pos (c : Char) : 0 < units c := by
  unfold units
  split
  all_goals decide

theorem column_cons_of_mem {c : Char} {cs : List Char} (h : c = '\n' ∨ '\n' ∈ cs) :
    column (c :: cs) = column cs := by
  rw [column, if_pos h]

theorem column_cons_of_not_mem {c : Char} {cs : List Char} (hc : c ≠ '\n') (h : '\n' ∉ cs) :
    column (c :: cs) = units c + column cs := by
  rw [column, if_neg (fun e => e.elim hc h)]

theorem splitAt?_append (before rest : List Char) :
    splitAt? (before ++ rest) (before.count '\n') (column before) = some (before, rest) := by
  induction before with
  | nil => cases rest <;> rfl
  | cons c cs ih =>
    rw [List.cons_append, splitAt?]
    by_cases hc : c = '\n'
    · subst hc
      have hcount : ('\n' :: cs).count '\n' = cs.count '\n' + 1 := List.count_cons_self
      rw [hcount, column_cons_of_mem (Or.inl rfl), if_neg (fun h => Nat.succ_ne_zero _ h.1), if_pos rfl,
        if_neg (Nat.succ_ne_zero _), Nat.add_sub_cancel, ih]
      rfl
    · have hcount : (c :: cs).count '\n' = cs.count '\n' := List.count_cons_of_ne hc
      rw [hcount]
      by_cases hm : '\n' ∈ cs
      · have h0 : cs.count '\n' ≠ 0 := (List.count_pos_iff.mpr hm).ne'
        rw [column_cons_of_mem (Or.inr hm), if_neg (fun h => h0 h.1), if_neg hc, if_pos h0, ih]
        rfl
      · have h0 : cs.count '\n' = 0 := List.count_eq_zero.mpr hm
        have hu := units_pos c
        rw [h0] at ih ⊢
        rw [column_cons_of_not_mem hc hm, if_neg (fun h => by omega), if_neg hc, if_neg (fun h => h rfl),
          if_pos (Nat.le_add_right _ _), Nat.add_sub_cancel_left, ih]
        rfl

/-- Fewer than 2^32 lines, and fewer than 2^32 UTF-16 units in each of them. -/
structure Measured (cs : List Char) : Prop where
  lines : cs.count '\n' + 1 < 0x100000000
  columns : ∀ line, line <:+: cs → '\n' ∉ line → width line < 0x100000000

theorem exists_lastLine (cs : List Char) : ∃ line, line <:+ cs ∧ '\n' ∉ line ∧ width line = column cs := by
  induction cs with
  | nil => exact ⟨[], List.suffix_rfl, List.not_mem_nil, rfl⟩
  | cons c cs ih =>
    obtain ⟨line, hs, hn, hw⟩ := ih
    by_cases h : c = '\n' ∨ '\n' ∈ cs
    · exact ⟨line, hs.trans (List.suffix_cons c cs), hn, by rw [column_cons_of_mem h, hw]⟩
    · have hm : '\n' ∉ c :: cs := by simpa [not_or, eq_comm] using h
      exact ⟨c :: cs, List.suffix_rfl, hm, (column_of_not_mem hm).symm⟩

theorem endPosition_of_measured {cs rest : List Char} (h : Measured (cs ++ rest)) :
    endPosition cs = ⟨cs.count '\n', column cs⟩ := by
  obtain ⟨line, hs, hn, hw⟩ := exists_lastLine cs
  have hc := h.columns line (hs.isInfix.trans (List.prefix_append cs rest).isInfix) hn
  have hl := h.lines
  rw [List.count_append] at hl
  rw [endPosition, width_lastLine, Nat.min_eq_left (by rw [maxCoordinate]; omega),
    Nat.min_eq_left (by rw [maxCoordinate]; omega)]

theorem width_le (cs : List Char) : width cs ≤ 2 * cs.length := by
  induction cs with
  | nil => exact Nat.le_refl _
  | cons c cs ih =>
    have hu : units c ≤ 2 := by
      rw [units]
      split <;> decide
    rw [width, List.length_cons]
    omega

theorem measured_of_length {cs : List Char} (h : cs.length < 0x80000000) : Measured cs := by
  refine ⟨?_, ?_⟩
  · have := List.count_le_length (a := '\n') (l := cs)
    omega
  · intro line hl _
    have h₁ := width_le line
    have h₂ := hl.length_le
    omega

theorem replace?_between {old : List Char} (new : List Char) (h : Measured old) :
    replace? old (between old new).range (between old new).inserted = some new := by
  obtain ⟨hold, hnew⟩ := between_parts old new
  generalize between old new = c at *
  have h₁ : c.before ++ (c.removed ++ c.after) = old := by rw [← List.append_assoc]; exact hold
  have h₂ : (c.before ++ c.removed) ++ c.after = old := hold
  have e₁ := splitAt?_append c.before (c.removed ++ c.after)
  have e₂ := splitAt?_append (c.before ++ c.removed) c.after
  rw [h₁] at e₁
  rw [h₂] at e₂
  rw [replace?, TextChange.range, endPosition_of_measured (h₁ ▸ h), endPosition_of_measured (h₂ ▸ h)]
  simp only [Option.bind_eq_bind, e₁, e₂, Option.bind_some]
  rw [if_pos (by simp), ← hnew]
  rfl

/-! ## What a server is told -/

/-- A change of a text: another text, or another range of it. -/
inductive Edit where
  | whole (text : String)
  | part (range : Wire.Range) (text : String)

inductive Told where
  | opened (uri : String) (version : Int) (text : String)
  | changed (uri : String) (version : Int) (edits : List Edit)
  | closed (uri : String)

namespace Edit

def ofJson? (v : Json) : Option Edit := do
  let text ← (v.member? "text").bind Json.str?
  match v.member? "range" with
  | none => return whole text
  | some range => return part (← (Wire.Range.decode range).toOption) text

def make? (text : String) : Edit → Option String
  | whole new => some new
  | part range new => (replace? text.toList range new.toList).map String.ofList

end Edit

def Edit.listOf? : Json → Option (List Edit)
  | .arr items => items.mapM Edit.ofJson?
  | _ => none

def Told.ofFrame? (frame : Json) : Option Told := do
  let .ok (.notification method (some params)) := Message.ofJson frame | none
  let document ← params.member? "textDocument"
  let uri ← (document.member? "uri").bind Json.str?
  if method = "textDocument/didOpen" then
    let .int version ← document.member? "version" | none
    return opened uri version (← (document.member? "text").bind Json.str?)
  else if method = "textDocument/didChange" then
    let .int version ← document.member? "version" | none
    return changed uri version (← (params.member? "contentChanges").bind Edit.listOf?)
  else if method = "textDocument/didClose" then return closed uri
  else none

structure Copy where
  version : Int
  text : String
deriving DecidableEq

def Mirror := String → Option Copy

namespace Mirror

def empty : Mirror := fun _ => none

def put (m : Mirror) (uri : String) (copy : Option Copy) : Mirror := fun u =>
  if u = uri then copy else m u

/-- What a server makes of what it is told. A document is opened only while it is closed, and with
version 1. It is changed only while it is open, and to the next version, which has to fit into 32 bits
with a sign. It is closed only while it is open. -/
def hear? (m : Mirror) : Told → Option Mirror
  | .opened uri version text =>
    if m uri = none ∧ version = 1 then some (m.put uri (some ⟨version, text⟩)) else none
  | .changed uri version edits => do
    let copy ← m uri
    if version = copy.version + 1 ∧ version ≤ 0x7FFFFFFF then
      return m.put uri (some ⟨version, ← edits.foldlM Edit.make? copy.text⟩)
    else none
  | .closed uri => if m uri = none then none else some (m.put uri none)

def hearFrame? (m : Mirror) (frame : Json) : Option Mirror :=
  (Told.ofFrame? frame).bind m.hear?

/-- What a server holds that was sent the given frames; there is nothing if one of them does not fit. -/
def replay (frames : List Json) : Option Mirror :=
  frames.foldlM hearFrame? empty

@[simp] theorem put_self (m : Mirror) (uri : String) (copy : Option Copy) : m.put uri copy uri = copy :=
  if_pos rfl

theorem put_of_ne {m : Mirror} {uri u : String} (h : u ≠ uri) (copy : Option Copy) : m.put uri copy u = m u :=
  if_neg h

theorem replay_concat (frames : List Json) (frame : Json) :
    replay (frames ++ [frame]) = (replay frames).bind (·.hearFrame? frame) := by
  rw [replay, List.foldlM_append, ← replay]
  simp [Option.bind_eq_bind]

end Mirror

/-! ## Notices as a server reads them -/

def Notice.frame (n : Notice) : Json :=
  (Message.notification n.method (some n.params)).toJson

@[simp] theorem ofJson_frame (n : Notice) :
    Message.ofJson n.frame = .ok (.notification n.method (some n.params)) :=
  Message.ofJson_toJson trivial

theorem ofFrame?_opened (uri languageId text : String) :
    Told.ofFrame? (Notice.frame ⟨"textDocument/didOpen", Params.opened uri languageId 1 text⟩) =
      some (.opened uri 1 text) := by
  simp [Told.ofFrame?, Params.opened, Params.single, Json.ofMembers, Table.ofList, Json.member?, Table.get?,
    Json.str?]

theorem ofFrame?_changed (uri : String) (version : Nat) {change : Json} {edit : Edit}
    (he : Edit.ofJson? change = some edit) :
    Told.ofFrame? (Notice.frame ⟨"textDocument/didChange", Params.changed uri version change⟩) =
      some (.changed uri version [edit]) := by
  simp [Told.ofFrame?, Params.changed, Json.ofMembers, Table.ofList, Json.member?, Json.str?, Edit.listOf?, he]

theorem ofFrame?_closed (uri : String) :
    Told.ofFrame? (Notice.frame ⟨"textDocument/didClose", Params.document uri⟩) = some (.closed uri) := by
  simp [Told.ofFrame?, Params.document, Params.documentMember, Params.single, Json.member?, Table.get?, Json.str?]

theorem ofJson?_text (text : String) : Edit.ofJson? (Params.single "text" (.str text)) = some (.whole text) := by
  simp [Edit.ofJson?, Params.single, Json.member?, Table.get?, Json.str?]

theorem fits_endPosition (cs : List Char) : (endPosition cs).Fits :=
  ⟨Nat.min_le_right _ _, Nat.min_le_right _ _⟩

theorem ofJson?_range (c : TextChange) (text : String) :
    Edit.ofJson? (Json.ofMembers [("range", c.range.toJson), ("text", .str text)]) =
      some (.part c.range text) := by
  have h : Wire.Range.decode c.range.toJson = .ok c.range :=
    Wire.Range.decode_toJson (fits_endPosition _) (fits_endPosition _)
  simp [Edit.ofJson?, Json.ofMembers, Table.ofList, Json.member?, Json.str?, h, Except.toOption]

/-- Whatever the mode, the server reads a change that turns the old text into the new one. -/
theorem ofFrame?_changeParams (mode : SyncMode) (uri : String) (version : Nat) {old : String} (new : String)
    (ho : Measured old.toList) :
    ∃ edit, edit.make? old = some new ∧
      Told.ofFrame? (Notice.frame ⟨"textDocument/didChange", DocumentStore.changeParams mode uri version old new⟩) =
        some (.changed uri version [edit]) := by
  cases mode with
  | full => exact ⟨.whole new, rfl, ofFrame?_changed uri version (ofJson?_text new)⟩
  | incremental =>
    refine ⟨_, ?_, ofFrame?_changed uri version (ofJson?_range _ _)⟩
    rw [Edit.make?, String.toList_ofList, replace?_between new.toList ho, Option.map_some, String.ofList_toList]

/-! ## Versions -/

def Told.count (uri : String) (n : Nat) : Told → Nat
  | opened u _ _ => if u = uri then 0 else n
  | changed u _ _ => if u = uri then n + 1 else n
  | closed _ => n

/-- How many changes of a document there are among the frames since it was opened last. -/
def changesSinceOpening (uri : String) (frames : List Json) : Nat :=
  frames.foldl (fun n frame => ((Told.ofFrame? frame).map (Told.count uri n)).getD n) 0

theorem changesSinceOpening_concat (uri : String) (frames : List Json) {frame : Json} {told : Told}
    (h : Told.ofFrame? frame = some told) :
    changesSinceOpening uri (frames ++ [frame]) = told.count uri (changesSinceOpening uri frames) := by
  rw [changesSinceOpening, List.foldl_append, ← changesSinceOpening, List.foldl_cons, List.foldl_nil, h,
    Option.map_some, Option.getD_some]

theorem version_of_replay {frames : List Json} {m : Mirror} (h : Mirror.replay frames = some m) {uri : String}
    {copy : Copy} (hc : m uri = some copy) : copy.version = 1 + changesSinceOpening uri frames := by
  induction frames using List.reverseRecOn generalizing m copy with
  | nil =>
    obtain rfl : Mirror.empty = m := Option.some.inj h
    cases hc
  | append_singleton frames frame ih =>
    rw [Mirror.replay_concat] at h
    obtain ⟨before, hb, h⟩ := Option.bind_eq_some_iff.mp h
    obtain ⟨told, ht, h⟩ := Option.bind_eq_some_iff.mp h
    rw [changesSinceOpening_concat uri frames ht]
    cases told with
    | opened u version text =>
      simp only [Mirror.hear?, Option.ite_none_right_eq_some, Option.some.injEq] at h
      obtain ⟨⟨-, rfl⟩, rfl⟩ := h
      by_cases hu : uri = u
      · subst hu
        rw [Mirror.put_self] at hc
        simp [← Option.some.inj hc, Told.count]
      · rw [Mirror.put_of_ne hu] at hc
        simp [Told.count, Ne.symm hu, ih hb hc]
    | changed u version edits =>
      simp only [Mirror.hear?, Option.bind_eq_bind, Option.bind_eq_some_iff, Option.ite_none_right_eq_some,
        Option.pure_def, Option.some.injEq] at h
      obtain ⟨old, ho, ⟨hv, -⟩, text, -, rfl⟩ := h
      by_cases hu : uri = u
      · subst hu
        rw [Mirror.put_self] at hc
        simp only [← Option.some.inj hc, hv, ih hb ho, Told.count, if_true]
        omega
      · rw [Mirror.put_of_ne hu] at hc
        simp [Told.count, Ne.symm hu, ih hb hc]
    | closed u =>
      simp only [Mirror.hear?, Option.ite_none_left_eq_some, Option.some.injEq] at h
      obtain ⟨-, rfl⟩ := h
      by_cases hu : uri = u
      · subst hu
        rw [Mirror.put_self] at hc
        cases hc
      · rw [Mirror.put_of_ne hu] at hc
        exact ih hb hc

/-! ## Steps of a document -/

def OpenDocument.copy (d : OpenDocument) : Copy :=
  ⟨d.version, d.text⟩

inductive Leads (uri : String) : Option OpenDocument → Notice → Option OpenDocument → Prop
  | opening (languageId text : String) :
    Leads uri none ⟨"textDocument/didOpen", Params.opened uri languageId 1 text⟩
      (some ⟨uri, languageId, 1, .full, text⟩)
  | changing (d : OpenDocument) (mode : SyncMode) (text : String) :
    Leads uri (some d)
      ⟨"textDocument/didChange", DocumentStore.changeParams mode uri (d.version + 1) d.text text⟩
      (some { d with version := d.version + 1, mode := mode, text := text })
  | closing (d : OpenDocument) :
    Leads uri (some d) ⟨"textDocument/didClose", Params.document uri⟩ none

/-- A server whose copy is the one that it should have hears the notice, and then has the copy that it should
have after it. -/
theorem Leads.hear {uri : String} {before after : Option OpenDocument} {notice : Notice}
    (h : Leads uri before notice after) {frames : List Json} {m : Mirror} (hr : Mirror.replay frames = some m)
    (hm : m uri = before.map OpenDocument.copy) (hd : ∀ d ∈ before, Measured d.text.toList)
    (hc : changesSinceOpening uri (frames ++ [notice.frame]) < 0x7FFFFFFF) :
    Mirror.replay (frames ++ [notice.frame]) = some (m.put uri (after.map OpenDocument.copy)) := by
  rw [Mirror.replay_concat, hr, Option.bind_some, Mirror.hearFrame?]
  cases h with
  | opening languageId text =>
    rw [ofFrame?_opened, Option.bind_some, Mirror.hear?, if_pos ⟨hm, rfl⟩]
    rfl
  | changing d mode text =>
    obtain ⟨edit, he, hf⟩ := ofFrame?_changeParams mode uri (d.version + 1) text (hd d rfl)
    have hv : (d.version : Int) = 1 + changesSinceOpening uri frames := version_of_replay hr hm
    rw [changesSinceOpening_concat uri frames hf] at hc
    simp only [Told.count, if_true] at hc
    have hlt : ((d.version + 1 : Nat) : Int) ≤ 0x7FFFFFFF := by omega
    rw [hf, Option.bind_some, Mirror.hear?, hm]
    simp only [Option.map_some, OpenDocument.copy, Option.bind_eq_bind, Option.bind_some, List.foldlM_cons,
      List.foldlM_nil, he, Option.pure_def]
    rw [if_pos ⟨by omega, hlt⟩]
  | closing d =>
    rw [ofFrame?_closed, Option.bind_some, Mirror.hear?, if_neg (by simp [hm])]
    rfl

end Liaison
