import Liaison.Proofs.Document.Exchange
import Mathlib.Logic.Function.Basic

/-!
# Lines and tickets

Operations on one document line up, and only the first in line has its turn. What waits for the sink under
a ticket belongs to one operation. Every step of an operation keeps both in order.
-/

namespace Liaison

namespace Stage

/-! ## Places and turns -/

def place? : Stage → Option String
  | arriving _ => none
  | queued op => some op.uri
  | looking op => some op.uri
  | choosing uri _ _ _ => some uri
  | handing uri _ _ _ => some uri
  | waiting uri _ _ _ _ => some uri
  | committing uri _ _ => some uri
  | leaving uri _ => some uri
  | ended _ => none

def turn? : Stage → Option String
  | queued _ => none
  | s => s.place?

def ticket? : Stage → Option Nat
  | waiting _ ticket _ _ _ => some ticket
  | _ => none

section

variable {α : Type} (uri : String) (found : α → Finding) (plan : DocumentPlan α)

@[simp] theorem place?_ofPlan : (ofPlan uri found plan).place? = some uri := by
  cases plan <;> rfl

@[simp] theorem turn?_ofPlan : (ofPlan uri found plan).turn? = some uri := by
  cases plan <;> rfl

@[simp] theorem ticket?_ofPlan : (ofPlan uri found plan).ticket? = none := by
  cases plan <;> rfl

variable (after : Option OpenDocument) (result : Result) (receipt : Receipt)

@[simp] theorem place?_told : (told uri after result receipt).place? = some uri := by
  cases receipt <;> rfl

@[simp] theorem turn?_told : (told uri after result receipt).turn? = some uri := by
  cases receipt <;> rfl

@[simp] theorem ticket?_told : (told uri after result receipt).ticket? = none := by
  cases receipt <;> rfl

end

section

variable (document : Option OpenDocument) (op : DocumentOperation)

@[simp] theorem place?_look : (look document op).place? = some op.uri := by
  cases op with
  | ensureOpen uri languageId text => exact place?_ofPlan uri _ _
  | change uri languageId text => rfl
  | close uri => exact place?_ofPlan uri _ _

@[simp] theorem turn?_look : (look document op).turn? = some op.uri := by
  cases op with
  | ensureOpen uri languageId text => exact turn?_ofPlan uri _ _
  | change uri languageId text => rfl
  | close uri => exact turn?_ofPlan uri _ _

@[simp] theorem ticket?_look : (look document op).ticket? = none := by
  cases op with
  | ensureOpen uri languageId text => exact ticket?_ofPlan uri _ _
  | change uri languageId text => rfl
  | close uri => exact ticket?_ofPlan uri _ _

end

theorem place?_of_turn? {s : Stage} {uri : String} (h : s.turn? = some uri) : s.place? = some uri := by
  cases s
  case queued => cases h
  all_goals exact h

end Stage

/-! ## Lines -/

abbrev Stages := TaskId → Option Stage

structure Lined (m : Machine) (stages : Stages) : Prop where
  nodup : ∀ uri, (m.line uri).Nodup
  mem_line : ∀ uri t, t ∈ m.line uri ↔ ∃ s, stages t = some s ∧ s.place? = some uri
  head_line : ∀ uri t s, stages t = some s → s.turn? = some uri → (m.line uri).head? = some t

theorem Lined.eq_of_turn? {m : Machine} {stages : Stages} (h : Lined m stages) {uri : String} {t t' : TaskId}
    {s s' : Stage} (ht : stages t = some s) (hs : s.turn? = some uri) (ht' : stages t' = some s')
    (hs' : s'.turn? = some uri) : t = t' := by
  have e := h.head_line uri t s ht hs
  rw [h.head_line uri t' s' ht' hs'] at e
  exact (Option.some.inj e).symm

theorem get?_commit (store : DocumentStore) (uri u : String) (after : Option OpenDocument) :
    (store.commit uri after).get? u = if u = uri then after else store.get? u := by
  cases after
  all_goals
    simp only [DocumentStore.commit, DocumentStore.get?, Table.get?_insert, Table.get?_erase]

theorem line_insert (m : Machine) (uri u : String) (line : List TaskId) :
    Machine.line { m with lines := m.lines.insert uri line } u = if u = uri then line else m.line u := by
  rw [Machine.line, Table.get?_insert]
  split <;> rfl

section

variable {m m₁ : Machine} {stages : Stages} {task : TaskId} {s s' : Stage}

theorem exists_update (p : Stage → Prop) (t : TaskId) :
    (∃ u, Function.update stages task (some s') t = some u ∧ p u) ↔
      if t = task then p s' else ∃ u, stages t = some u ∧ p u := by
  by_cases e : t = task
  · subst e
    simp
  · simp [e]

theorem exists_of_stage (hs : stages task = some s) (p : Stage → Prop) :
    (∃ u, stages task = some u ∧ p u) ↔ p s := by
  simp [hs]

theorem Lined.of_lines (h : Lined m stages) (hl : m₁.lines = m.lines) : Lined m₁ stages := by
  have hline : ∀ uri, m₁.line uri = m.line uri := fun uri => by rw [Machine.line, hl, Machine.line]
  exact ⟨fun uri => hline uri ▸ h.nodup uri, fun uri => hline uri ▸ h.mem_line uri,
    fun uri => hline uri ▸ h.head_line uri⟩

/-- Nothing changes in the lines while an operation keeps its place and its turn. -/
theorem Lined.of_same (h : Lined m stages) (hs : stages task = some s) (hl : m₁.lines = m.lines)
    (hp : s'.place? = s.place?) (ht : s'.turn? = s.turn?) : Lined m₁ (Function.update stages task (some s')) := by
  have h := h.of_lines hl
  refine ⟨h.nodup, ?_, ?_⟩
  · intro uri t
    rw [h.mem_line uri t, exists_update]
    by_cases e : t = task
    · rw [if_pos e, e, exists_of_stage hs, hp]
    · rw [if_neg e]
  · intro uri t u hu hut
    by_cases e : t = task
    · subst e
      rw [Function.update_self] at hu
      obtain rfl := Option.some.inj hu
      exact h.head_line uri t s hs (ht ▸ hut)
    · rw [Function.update_of_ne e] at hu
      exact h.head_line uri t u hu hut

theorem Lined.lineUp {op : DocumentOperation} (h : Lined m stages) (hs : stages task = some (.arriving op)) :
    Lined { m with lines := m.lines.insert op.uri (m.line op.uri ++ [task]) }
      (Function.update stages task (some (.queued op))) := by
  have hnot : ∀ uri, task ∉ m.line uri := fun uri => by
    rw [h.mem_line, exists_of_stage hs]
    exact nofun
  refine ⟨?_, ?_, ?_⟩
  · intro uri
    rw [line_insert]
    split
    · refine List.nodup_append.mpr ⟨h.nodup _, List.pairwise_singleton _ task, fun a ha b hb e => hnot op.uri ?_⟩
      rw [← List.mem_singleton.mp hb, ← e]
      exact ha
    · exact h.nodup uri
  · intro uri t
    rw [line_insert, exists_update]
    by_cases e : t = task
    · rw [if_pos e, e]
      by_cases hu : uri = op.uri
      · simp [hu, Stage.place?]
      · simp [hu, hnot uri, Stage.place?, Ne.symm hu]
    · rw [if_neg e, ← h.mem_line]
      by_cases hu : uri = op.uri
      · simp [hu, e]
      · simp [hu]
  · intro uri t u hu hut
    have e : t ≠ task := by
      rintro rfl
      rw [Function.update_self] at hu
      obtain rfl := Option.some.inj hu
      cases hut
    rw [Function.update_of_ne e] at hu
    have hhead := h.head_line uri t u hu hut
    rw [line_insert]
    split
    · rename_i e'
      rw [List.head?_append, ← e', hhead]
      rfl
    · exact hhead

theorem Lined.takeTurn {op : DocumentOperation} (h : Lined m stages) (hs : stages task = some (.queued op))
    (hh : (m.line op.uri).head? = some task) : Lined m (Function.update stages task (some (.looking op))) := by
  refine ⟨h.nodup, ?_, ?_⟩
  · intro uri t
    rw [exists_update, h.mem_line]
    by_cases e : t = task
    · rw [if_pos e, e, exists_of_stage hs]
      rfl
    · rw [if_neg e]
  · intro uri t u hu hut
    by_cases e : t = task
    · rw [e, Function.update_self] at hu
      obtain rfl := Option.some.inj hu
      obtain rfl := Option.some.inj hut
      rw [e, hh]
    · rw [Function.update_of_ne e] at hu
      exact h.head_line uri t u hu hut

theorem Lined.leave {uri : String} {result : Result} (h : Lined m stages)
    (hs : stages task = some (.leaving uri result)) :
    Lined { m with lines := m.lines.insert uri ((m.line uri).erase task) }
      (Function.update stages task (some (.ended result))) := by
  refine ⟨?_, ?_, ?_⟩
  · intro u
    rw [line_insert]
    split
    · exact (h.nodup uri).erase task
    · exact h.nodup u
  · intro u t
    rw [line_insert, exists_update]
    by_cases e : t = task
    · rw [if_pos e, e]
      by_cases hu : u = uri
      · simp [hu, (h.nodup uri).mem_erase_iff, Stage.place?]
      · rw [if_neg hu, h.mem_line, exists_of_stage hs]
        simp [Stage.place?, Ne.symm hu]
    · rw [if_neg e, ← h.mem_line]
      by_cases hu : u = uri
      · rw [if_pos hu, (h.nodup uri).mem_erase_iff, hu]
        exact ⟨fun h => h.2, fun h => ⟨e, h⟩⟩
      · rw [if_neg hu]
  · intro u t v hv hvt
    have e : t ≠ task := by
      rintro rfl
      rw [Function.update_self] at hv
      obtain rfl := Option.some.inj hv
      cases hvt
    rw [Function.update_of_ne e] at hv
    rw [line_insert]
    split
    · rename_i hu
      subst hu
      exact absurd (h.eq_of_turn? hv hvt hs rfl) e
    · exact h.head_line u t v hv hvt

theorem Lined.moves (h : Lined m stages) (hs : stages task = some s) (hm : Moves m task s s' m₁) :
    Lined m₁ (Function.update stages task (some s')) := by
  cases hm with
  | lineUp op => exact h.lineUp hs
  | takeTurn op hh => exact h.takeTurn hs hh
  | look op => exact h.of_same hs rfl (Stage.place?_look _ op) (Stage.turn?_look _ op)
  | choose uri languageId text document =>
    exact h.of_same hs rfl (Stage.place?_ofPlan uri _ _) (Stage.turn?_ofPlan uri _ _)
  | refuse uri notice after result _ => exact h.of_same hs rfl rfl rfl
  | hand uri notice after result => exact h.of_same hs rfl rfl rfl
  | hear uri ticket notice after result receipt _ =>
    exact h.of_same hs rfl (Stage.place?_told uri _ _ _) (Stage.turn?_told uri _ _ _)
  | commit uri after result => exact h.of_same hs rfl rfl rfl
  | leave uri result => exact h.leave hs

theorem Lined.outside (h : Lined m stages) (hs : ∀ u, stages task = some u → u.place? = none) {o : Option Stage}
    (ho : ∀ u, o = some u → u.place? = none) (hl : m₁.lines = m.lines) :
    Lined m₁ (Function.update stages task o) := by
  have h := h.of_lines hl
  refine ⟨h.nodup, ?_, ?_⟩
  · intro uri t
    rw [h.mem_line]
    by_cases e : t = task
    · rw [e, Function.update_self]
      constructor
      · rintro ⟨u, hu, hp⟩
        rw [hs u hu] at hp
        cases hp
      · rintro ⟨u, hu, hp⟩
        rw [ho u hu] at hp
        cases hp
    · rw [Function.update_of_ne e]
  · intro uri t u hu hut
    have e : t ≠ task := by
      rintro rfl
      rw [Function.update_self] at hu
      have hp := Stage.place?_of_turn? hut
      rw [ho u hu] at hp
      cases hp
    rw [Function.update_of_ne e] at hu
    exact h.head_line uri t u hu hut

end

/-! ## Tickets -/

def tickets (stages : Stages) : TaskId → Option Nat := fun t => (stages t).bind Stage.ticket?

section

variable {m m₁ : Machine} {stages : Stages} {task : TaskId} {s s' : Stage}

theorem tickets_update (stages : Stages) (task : TaskId) (o : Option Stage) :
    tickets (Function.update stages task o) = Function.update (tickets stages) task (o.bind Stage.ticket?) := by
  funext t
  by_cases e : t = task
  · rw [tickets, e, Function.update_self, Function.update_self]
  · rw [tickets, Function.update_of_ne e, Function.update_of_ne e, tickets]

theorem tickets_of_stage (hs : stages task = some s) : tickets stages task = s.ticket? := by
  rw [tickets, hs, Option.bind_some]

theorem Ticketed.of_same {o : Outbox} (h : Ticketed o (tickets stages)) (hs : stages task = some s)
    (he : s'.ticket? = s.ticket?) : Ticketed o (tickets (Function.update stages task (some s'))) := by
  rw [tickets_update, Option.bind_some, he, ← tickets_of_stage hs, Function.update_eq_self]
  exact h

theorem Ticketed.moves (h : Ticketed m.outbox (tickets stages)) (hs : stages task = some s)
    (hm : Moves m task s s' m₁) : Ticketed m₁.outbox (tickets (Function.update stages task (some s'))) := by
  have ht := tickets_of_stage hs
  cases hm with
  | hand uri notice after result =>
    rw [tickets_update]
    exact h.send ht notice.frame
  | hear uri ticket notice after result receipt hr =>
    rw [tickets_update, Option.bind_some, Stage.ticket?_told]
    exact h.hear ht (by rw [hr]; exact Option.some_ne_none _)
  | look op => exact h.of_same hs (Stage.ticket?_look _ op)
  | choose uri languageId text document => exact h.of_same hs (Stage.ticket?_ofPlan uri _ _)
  | lineUp op => exact h.of_same hs rfl
  | takeTurn op _ => exact h.of_same hs rfl
  | refuse uri notice after result _ => exact h.of_same hs rfl
  | commit uri after result => exact h.of_same hs rfl
  | leave uri result => exact h.of_same hs rfl

end

end Liaison
