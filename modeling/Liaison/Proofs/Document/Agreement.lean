import Liaison.Proofs.Document.Lines

/-!
# The server and the store agree

However operations on documents are interleaved, and whatever the sink accepts, the frames that it accepted
fit together, and a server that reads them holds the documents of the store. Nobody but the operation whose
turn it is changes a document, so what it has seen of the document stays true until it leaves.
-/

namespace Liaison

/-! ## What operations know -/

def InStep (m : Machine) (mirror : Mirror) (uri : String) : Prop :=
  mirror uri = (m.documents.get? uri).map OpenDocument.copy

def DocumentOperation.Measured (op : DocumentOperation) : Prop :=
  ∀ text ∈ op.text?, Liaison.Measured text.toList

def AllMeasured (document : Option OpenDocument) : Prop :=
  ∀ d ∈ document, Measured d.text.toList

def Stage.Knows (m : Machine) (mirror : Mirror) : Stage → Prop
  | arriving op => op.Measured
  | queued op => op.Measured
  | looking op => op.Measured ∧ InStep m mirror op.uri
  | choosing uri _ text document =>
    Measured text.toList ∧ InStep m mirror uri ∧ document = m.documents.get? uri
  | handing uri notice after _ =>
    AllMeasured after ∧ InStep m mirror uri ∧ Leads uri (m.documents.get? uri) notice after
  | waiting uri ticket notice after _ =>
    AllMeasured after ∧
      match m.outbox.receipts.get? ticket with
      | none =>
        InStep m mirror uri ∧ Leads uri (m.documents.get? uri) notice after ∧
          m.outbox.waiting? ticket = some notice.frame
      | some .written => mirror uri = after.map OpenDocument.copy
      | some _ => InStep m mirror uri
  | committing uri after _ => AllMeasured after ∧ mirror uri = after.map OpenDocument.copy
  | leaving uri _ => InStep m mirror uri
  | ended _ => True

section

variable {m m₁ : Machine} {mirror : Mirror} {task : TaskId} {s s' : Stage}

theorem Stage.knows_ofPlan {α : Type} {uri : String} {found : α → Finding} {plan : DocumentPlan α}
    (hi : InStep m mirror uri)
    (hp : ∀ notice after answer, plan = .send notice after answer →
      AllMeasured after ∧ Leads uri (m.documents.get? uri) notice after) :
    (ofPlan uri found plan).Knows m mirror := by
  cases plan with
  | keep answer => exact hi
  | send notice after answer =>
    obtain ⟨ha, hl⟩ := hp notice after answer rfl
    exact ⟨ha, hi, hl⟩

theorem Stage.knows_look {op : DocumentOperation} (ho : op.Measured) (hi : InStep m mirror op.uri) :
    (look (m.documents.get? op.uri) op).Knows m mirror := by
  cases op with
  | ensureOpen uri languageId text =>
    refine knows_ofPlan hi ?_
    intro notice after answer hp
    change DocumentStore.planOpen (m.documents.get? uri) uri languageId text = _ at hp
    cases hd : m.documents.get? uri with
    | none =>
      rw [hd] at hp
      cases hp
      refine ⟨?_, .opening languageId text⟩
      intro d hd
      obtain rfl := Option.some.inj hd
      exact ho text rfl
    | some d =>
      rw [hd] at hp
      cases hp
  | change uri languageId text => exact ⟨ho text rfl, hi, rfl⟩
  | close uri =>
    refine knows_ofPlan hi ?_
    intro notice after answer hp
    change DocumentStore.planClose (m.documents.get? uri) uri = _ at hp
    cases hd : m.documents.get? uri with
    | none =>
      rw [hd] at hp
      cases hp
    | some d =>
      rw [hd] at hp
      cases hp
      exact ⟨nofun, .closing d⟩

theorem Stage.knows_choose {uri languageId text : String} {mode : SyncMode} (ho : Measured text.toList)
    (hi : InStep m mirror uri) :
    (choose uri languageId text (m.documents.get? uri) mode).Knows m mirror := by
  refine knows_ofPlan hi ?_
  intro notice after answer hp
  cases hd : m.documents.get? uri with
  | none =>
    rw [hd] at hp
    cases hp
    refine ⟨?_, .opening languageId text⟩
    intro d hd
    obtain rfl := Option.some.inj hd
    exact ho
  | some d =>
    rw [hd, DocumentStore.planChange] at hp
    split at hp
    · cases hp
    · cases hp
      refine ⟨?_, .changing d mode text⟩
      intro d' hd'
      obtain rfl := Option.some.inj hd'
      exact ho

theorem Moves.knows_self {stages : Stages} (hm : Moves m task s s' m₁) (hk : s.Knows m mirror)
    (ht : Ticketed m.outbox (tickets stages)) (hidle : ∀ op, s = .queued op → (m.line op.uri).head? = some task →
      InStep m mirror op.uri) : s'.Knows m₁ mirror := by
  cases hm with
  | lineUp op => exact hk
  | takeTurn op hh => exact ⟨hk, hidle op rfl hh⟩
  | look op => exact Stage.knows_look hk.1 hk.2
  | choose uri languageId text document =>
    obtain ⟨ho, hi, rfl⟩ := hk
    exact Stage.knows_choose ho hi
  | refuse uri notice after result _ => exact hk.2.1
  | hand uri notice after result =>
    obtain ⟨ha, hi, hl⟩ := hk
    refine ⟨ha, ?_⟩
    change match m.outbox.receipts.get? m.outbox.nextTicket with
      | none => _
      | some .written => _
      | some _ => _
    rw [ht.receipt_next]
    refine ⟨hi, hl, ?_⟩
    rw [Outbox.waiting?_send, ht.waiting_next, Option.none_or, if_pos rfl]
  | hear uri ticket notice after result receipt hr =>
    obtain ⟨ha, hk⟩ := hk
    rw [hr] at hk
    cases receipt with
    | written => exact ⟨ha, hk⟩
    | failed reason => exact hk
    | dropped => exact hk
  | commit uri after result =>
    obtain ⟨-, hk⟩ := hk
    change mirror uri = ((m.documents.commit uri after).get? uri).map OpenDocument.copy
    rw [get?_commit, if_pos rfl, hk]
  | leave uri result => trivial

/-- An operation knows as much as before while its document and its ticket are left alone. -/
theorem Stage.Knows.frame {mirror₁ : Mirror} (hk : s.Knows m mirror)
    (hd : ∀ uri, s.turn? = some uri →
      m₁.documents.get? uri = m.documents.get? uri ∧ mirror₁ uri = mirror uri)
    (ho : ∀ ticket, s.ticket? = some ticket →
      m₁.outbox.receipts.get? ticket = m.outbox.receipts.get? ticket ∧
        m₁.outbox.waiting? ticket = m.outbox.waiting? ticket) : s.Knows m₁ mirror₁ := by
  cases s with
  | arriving op => exact hk
  | queued op => exact hk
  | looking op =>
    obtain ⟨hd₁, hd₂⟩ := hd op.uri rfl
    exact ⟨hk.1, by rw [InStep, hd₁, hd₂]; exact hk.2⟩
  | choosing uri languageId text document =>
    obtain ⟨hd₁, hd₂⟩ := hd uri rfl
    exact ⟨hk.1, by rw [InStep, hd₁, hd₂]; exact hk.2.1, by rw [hd₁]; exact hk.2.2⟩
  | handing uri notice after result =>
    obtain ⟨hd₁, hd₂⟩ := hd uri rfl
    exact ⟨hk.1, by rw [InStep, hd₁, hd₂]; exact hk.2.1, by rw [hd₁]; exact hk.2.2⟩
  | waiting uri ticket notice after result =>
    obtain ⟨hd₁, hd₂⟩ := hd uri rfl
    obtain ⟨ho₁, ho₂⟩ := ho ticket rfl
    simp only [Knows, InStep, ho₁, ho₂, hd₁, hd₂] at hk ⊢
    exact hk
  | committing uri after result =>
    obtain ⟨-, hd₂⟩ := hd uri rfl
    exact ⟨hk.1, hd₂ ▸ hk.2⟩
  | leaving uri result =>
    obtain ⟨hd₁, hd₂⟩ := hd uri rfl
    change InStep m₁ mirror₁ uri
    rw [InStep, hd₁, hd₂]
    exact hk
  | ended result => trivial

theorem Moves.documents (hm : Moves m task s s' m₁) {uri : String} (h : s.turn? ≠ some uri) :
    m₁.documents.get? uri = m.documents.get? uri := by
  cases hm
  case commit u after result =>
    have hne : uri ≠ u := fun e => h (e ▸ rfl)
    change (m.documents.commit u after).get? uri = _
    rw [get?_commit, if_neg hne]
  all_goals rfl

theorem Moves.outbox (hm : Moves m task s s' m₁) {k : Nat} (h : s.ticket? ≠ some k)
    (hlt : k < m.outbox.nextTicket) :
    m₁.outbox.receipts.get? k = m.outbox.receipts.get? k ∧ m₁.outbox.waiting? k = m.outbox.waiting? k := by
  cases hm
  case hand uri notice after result =>
    refine ⟨rfl, ?_⟩
    rw [Outbox.waiting?_send, if_neg hlt.ne', Option.or_none]
  case hear uri ticket notice after result receipt hr =>
    have hne : k ≠ ticket := fun e => h (e ▸ rfl)
    refine ⟨?_, rfl⟩
    change (m.outbox.receipts.erase ticket).get? k = _
    rw [Table.get?_erase, if_neg hne]
  all_goals exact ⟨rfl, rfl⟩

theorem Moves.turn (hm : Moves m task s s' m₁) {uri : String} (h : s.turn? = some uri) :
    s'.turn? = some uri ∨ ∃ result, s = .leaving uri result := by
  cases hm with
  | lineUp op => cases h
  | takeTurn op _ => cases h
  | look op => exact .inl ((Stage.turn?_look _ op).trans h)
  | choose u languageId text document => exact .inl ((Stage.turn?_ofPlan u _ _).trans h)
  | refuse u notice after result _ => exact .inl h
  | hand u notice after result => exact .inl h
  | hear u ticket notice after result receipt _ => exact .inl ((Stage.turn?_told u _ _ _).trans h)
  | commit u after result => exact .inl h
  | leave u result =>
    obtain rfl := Option.some.inj h
    exact .inr ⟨result, rfl⟩

theorem Moves.nextTask (hm : Moves m task s s' m₁) : m₁.nextTask = m.nextTask ∧ m₁.tasks = m.tasks := by
  cases hm
  all_goals exact ⟨rfl, rfl⟩

theorem Moves.measured (hm : Moves m task s s' m₁) (hk : s.Knows m mirror)
    (h : ∀ uri, AllMeasured (m.documents.get? uri)) (uri : String) : AllMeasured (m₁.documents.get? uri) := by
  cases hm
  case commit u after result =>
    change AllMeasured ((m.documents.commit u after).get? uri)
    rw [get?_commit]
    split
    · exact hk.1
    · exact h uri
  all_goals exact h uri

end

/-! ## The invariant -/

/-- The operations are at the stages, the server has the copies, and every operation can rely on what it
knows. Where no operation has its turn, the server's copy is the one of the store. -/
structure Sound (x : Exchange) (stages : Stages) (mirror : Mirror) : Prop where
  tasks : ∀ t, x.machine.tasks.get? t = (stages t).map Stage.routine
  fresh : ∀ t, x.machine.nextTask ≤ t → stages t = none
  lined : Lined x.machine stages
  ticketed : Ticketed x.machine.outbox (tickets stages)
  replay : Mirror.replay x.wire = some mirror
  knows : ∀ t s, stages t = some s → s.Knows x.machine mirror
  idle : ∀ uri, (∀ t s, stages t = some s → s.turn? ≠ some uri) → InStep x.machine mirror uri
  measured : ∀ uri, AllMeasured (x.machine.documents.get? uri)

theorem sound_start (o : ClientOptions) (files : FileTree) (state : SessionState) :
    Sound (.start o files state) (fun _ => none) .empty where
  tasks _ := rfl
  fresh _ _ := rfl
  lined := ⟨fun _ => List.nodup_nil, fun _ _ => by simp [Exchange.start, Machine.blank, Machine.line],
    fun _ _ _ h => by cases h⟩
  ticketed := ⟨fun _ _ h => (by cases h), fun _ _ _ h => (by cases h), fun _ h => absurd h List.not_mem_nil,
    List.nodup_nil, fun _ h => absurd rfl h, fun _ _ => List.not_mem_nil⟩
  replay := rfl
  knows _ _ h := by cases h
  idle _ _ := rfl
  measured _ d hd := absurd hd (Option.not_mem_none d)

namespace Sound

variable {x : Exchange} {stages : Stages} {mirror : Mirror}

theorem turn_ne_of_outside {s : Stage} (h : s.place? = none) (uri : String) : s.turn? ≠ some uri := by
  intro ht
  rw [Stage.place?_of_turn? ht] at h
  cases h

theorem ticket_of_outside {s : Stage} (h : s.place? = none) : s.ticket? = none := by
  cases s with
  | waiting uri ticket notice after result => cases h
  | _ => rfl

theorem outside (h : Sound x stages mirror) {m : Machine} {task : TaskId} {o : Option Stage}
    (hs : ∀ u, stages task = some u → u.place? = none) (ho : ∀ u, o = some u → u.place? = none ∧ u.Knows m mirror)
    (hl : m.lines = x.machine.lines) (hb : m.outbox = x.machine.outbox) (hd : m.documents = x.machine.documents)
    (ht : ∀ t, m.tasks.get? t = (Function.update stages task o t).map Stage.routine)
    (hf : ∀ t, m.nextTask ≤ t → Function.update stages task o t = none) :
    Sound { x with machine := m } (Function.update stages task o) mirror where
  tasks := ht
  fresh := hf
  lined := h.lined.outside hs (fun u hu => (ho u hu).1) hl
  ticketed := by
    have hnone : ∀ p : Option Stage, (∀ u, p = some u → u.place? = none) → p.bind Stage.ticket? = none := by
      intro p hp
      cases p with
      | none => rfl
      | some u => exact ticket_of_outside (hp u rfl)
    have hsame : o.bind Stage.ticket? = tickets stages task :=
      (hnone o fun u hu => (ho u hu).1).trans (hnone (stages task) hs).symm
    rw [tickets_update, hsame, Function.update_eq_self]
    exact hb ▸ h.ticketed
  replay := h.replay
  knows t u hu := by
    by_cases e : t = task
    · rw [e, Function.update_self] at hu
      exact (ho u hu).2
    · rw [Function.update_of_ne e] at hu
      exact (h.knows t u hu).frame (fun _ _ => ⟨by rw [hd], rfl⟩) (fun _ _ => ⟨by rw [hb], by rw [hb]⟩)
  idle uri hn := by
    change mirror uri = (m.documents.get? uri).map OpenDocument.copy
    rw [hd]
    refine h.idle uri ?_
    intro t u hu
    by_cases e : t = task
    · exact turn_ne_of_outside (hs u (e ▸ hu)) uri
    · exact hn t u (by rwa [Function.update_of_ne e])
  measured := by
    rw [hd]
    exact h.measured

theorem map_update (h : Sound x stages mirror) {task : TaskId} {o : Option Stage} {t : TaskId} :
    (Function.update stages task o t).map Stage.routine =
      if t = task then o.map Stage.routine else x.machine.tasks.get? t := by
  by_cases e : t = task
  · rw [if_pos e, e, Function.update_self]
  · rw [if_neg e, Function.update_of_ne e, h.tasks t]

theorem lt_nextTask (h : Sound x stages mirror) {t : TaskId} {s : Stage} (hs : stages t = some s) :
    t < x.machine.nextTask := by
  by_contra hlt
  rw [h.fresh t (Nat.le_of_not_lt hlt)] at hs
  cases hs

theorem begin (h : Sound x stages mirror) {op : DocumentOperation} (ho : op.Measured) :
    Sound (x.step (.begin op)) (Function.update stages x.machine.nextTask (some (.arriving op))) mirror := by
  refine h.outside ?_ ?_ rfl rfl rfl ?_ ?_
  · intro u hu
    exact absurd (h.lt_nextTask hu) (Nat.lt_irrefl _)
  · intro u hu
    obtain rfl := Option.some.inj hu
    exact ⟨rfl, ho⟩
  · intro t
    rw [h.map_update]
    exact (Table.get?_insert t _ _ _).trans (by rw [op.routine_eq]; rfl)
  · intro t ht
    have hlt : x.machine.nextTask < t := ht
    rw [Function.update_of_ne hlt.ne']
    exact h.fresh t hlt.le

theorem setMode (h : Sound x stages mirror) (mode : SyncMode) :
    Sound (x.step (.setMode mode)) stages mirror :=
  ⟨h.tasks, h.fresh, h.lined.of_lines rfl, h.ticketed, h.replay,
    fun t u hu => (h.knows t u hu).frame (fun _ _ => ⟨rfl, rfl⟩) (fun _ _ => ⟨rfl, rfl⟩), h.idle, h.measured⟩

theorem moves (h : Sound x stages mirror) {task : TaskId} {s s' : Stage} {m₁ : Machine}
    (hs : stages task = some s) (hm : Moves x.machine task s s' m₁) :
    Sound { x with machine := { m₁ with tasks := m₁.tasks.insert task s'.routine } }
      (Function.update stages task (some s')) mirror where
  tasks t := by
    rw [h.map_update]
    refine (Table.get?_insert t _ _ _).trans ?_
    rw [hm.nextTask.2]
    rfl
  fresh t ht := by
    have hle : x.machine.nextTask ≤ t := hm.nextTask.1 ▸ ht
    rw [Function.update_of_ne (Nat.lt_of_lt_of_le (h.lt_nextTask hs) hle).ne', h.fresh t hle]
  lined := (h.lined.moves hs hm).of_lines rfl
  ticketed := by
    have ht := h.ticketed.moves hs hm
    exact ht
  replay := h.replay
  knows t u hu := by
    by_cases e : t = task
    · rw [e, Function.update_self] at hu
      obtain rfl := Option.some.inj hu
      refine (hm.knows_self (h.knows task s hs) h.ticketed fun op ho hh => h.idle op.uri ?_).frame
        (fun _ _ => ⟨rfl, rfl⟩) (fun _ _ => ⟨rfl, rfl⟩)
      intro t' u' hu' ht'
      -- the first in line has its turn only now, and nobody else can have it
      subst ho
      obtain rfl := Option.some.inj (hh.symm.trans (h.lined.head_line op.uri t' u' hu' ht'))
      obtain rfl := Option.some.inj (hs.symm.trans hu')
      cases ht'
    · rw [Function.update_of_ne e] at hu
      refine (h.knows t u hu).frame (fun uri hut => ⟨?_, rfl⟩) ?_
      · exact hm.documents fun hst => e (h.lined.eq_of_turn? hu hut hs hst)
      · intro ticket huk
        have htk := (tickets_of_stage hu).trans huk
        exact hm.outbox (fun hsk => e (h.ticketed.ticket_inj t task ticket htk ((tickets_of_stage hs).trans hsk)))
          (h.ticketed.ticket_lt t ticket htk)
  idle uri hn := by
    have hself : s'.turn? ≠ some uri := hn task s' (Function.update_self ..)
    by_cases hst : s.turn? = some uri
    · obtain hs' | ⟨result, rfl⟩ := hm.turn hst
      · exact absurd hs' hself
      · cases hm
        exact h.knows task _ hs
    · change mirror uri = (m₁.documents.get? uri).map OpenDocument.copy
      rw [hm.documents hst]
      refine h.idle uri ?_
      intro t u hu
      by_cases e : t = task
      · obtain rfl := Option.some.inj (hs.symm.trans (e ▸ hu))
        exact hst
      · exact hn t u (by rwa [Function.update_of_ne e])
  measured uri := hm.measured (h.knows task s hs) h.measured uri

theorem step (h : Sound x stages mirror) (task : TaskId) :
    ∃ stages, Sound (x.step (.step task)) stages mirror := by
  cases ha : x.machine.advance task with
  | none =>
    refine ⟨stages, ?_⟩
    rw [Exchange.step, ha]
    exact h
  | some m =>
    have hx : x.step (.step task) = { x with machine := m } := by rw [Exchange.step, ha]; rfl
    rw [hx]
    cases hs : stages task with
    | none =>
      have ht := h.tasks task
      rw [hs, Option.map_none] at ht
      rw [Machine.advance, ht] at ha
      cases ha
    | some s =>
      have ht := h.tasks task
      rw [hs, Option.map_some] at ht
      obtain ⟨result, rfl, rfl⟩ | ⟨s', m₁, hm, rfl⟩ := advance_stage ht ha
      · refine ⟨Function.update stages task none, h.outside ?_ ?_ rfl rfl rfl
          ?_ ?_⟩
        · intro u hu
          obtain rfl := Option.some.inj (hs.symm.trans hu)
          rfl
        · intro u hu
          cases hu
        · intro t
          rw [h.map_update]
          exact Table.get?_erase t task _
        · intro t hlt
          by_cases e : t = task
          · rw [e, Function.update_self]
          · rw [Function.update_of_ne e]
            exact h.fresh t hlt
      · exact ⟨_, h.moves hs hm⟩

theorem waiting (h : Sound x stages mirror) {ticket : Nat} {frame : Json}
    (hw : x.machine.outbox.waiting? ticket = some frame) :
    ∃ t uri notice after result, stages t = some (.waiting uri ticket notice after result) ∧ AllMeasured after ∧
      InStep x.machine mirror uri ∧ Leads uri (x.machine.documents.get? uri) notice after ∧ notice.frame = frame := by
  obtain ⟨t, ht⟩ := h.ticketed.owner ticket (Outbox.mem_of_waiting? (by rw [hw]; exact Option.some_ne_none _))
  obtain ⟨u, hu, huk⟩ := Option.bind_eq_some_iff.mp ht
  have hr : x.machine.outbox.receipts.get? ticket = none := by
    by_contra hne
    rw [h.ticketed.waiting_of_receipt hne] at hw
    cases hw
  cases u with
  | waiting uri k notice after result =>
    obtain rfl := Option.some.inj huk
    obtain ⟨ha, hk⟩ := h.knows t _ hu
    rw [hr] at hk
    obtain ⟨hi, hl, hf⟩ := hk
    exact ⟨t, uri, notice, after, result, hu, ha, hi, hl, Option.some.inj (hf.symm.trans hw)⟩
  | _ => cases huk

/-- The sink answers, and the server has another copy of the document at most. -/
theorem settle (h : Sound x stages mirror) {t : TaskId} {uri : String} {ticket : Nat} {notice : Notice}
    {after : Option OpenDocument} {result : Result}
    (hs : stages t = some (.waiting uri ticket notice after result))
    (hw : x.machine.outbox.waiting? ticket ≠ none) (r : Receipt) {wire : List Json} {mirror₁ : Mirror}
    (hr : Mirror.replay wire = some mirror₁) (hm : ∀ u, u ≠ uri → mirror₁ u = mirror u)
    (hk : (Stage.waiting uri ticket notice after result).Knows
      { x.machine with outbox := x.machine.outbox.settle ticket r } mirror₁) :
    Sound { x.withOutbox (x.machine.outbox.settle ticket r) with wire := wire } stages mirror₁ where
  tasks := h.tasks
  fresh := h.fresh
  lined := h.lined.of_lines rfl
  ticketed := h.ticketed.settle (Outbox.mem_of_waiting? hw) r
  replay := hr
  knows t' u hu := by
    by_cases e : t' = t
    · obtain rfl := Option.some.inj (hs.symm.trans (e ▸ hu))
      exact hk
    · refine (h.knows t' u hu).frame (fun uri' hut => ⟨rfl, hm uri' ?_⟩) ?_
      · intro e'
        exact e (h.lined.eq_of_turn? hu hut hs (by rw [e']; rfl))
      · intro k huk
        have htk := (tickets_of_stage hu).trans huk
        have hne : k ≠ ticket := fun e' => e (h.ticketed.ticket_inj t' t ticket (e' ▸ htk) (tickets_of_stage hs))
        exact ⟨(Outbox.receipts_settle _ _ _ _).trans (if_neg hne), (Outbox.waiting?_settle _ _ _ _).trans (if_neg hne)⟩
  idle uri' hn := by
    have hne : uri' ≠ uri := fun e => hn t _ hs (by rw [e]; rfl)
    change mirror₁ uri' = _
    rw [hm uri' hne]
    exact h.idle uri' hn
  measured := h.measured

theorem reject (h : Sound x stages mirror) (ticket : Nat) (reason : Option String) :
    Sound (x.step (.reject ticket reason)) stages mirror := by
  cases hw : x.machine.outbox.waiting? ticket with
  | none => simpa only [Exchange.step, hw] using h
  | some frame =>
    obtain ⟨t, uri, notice, after, result, hs, ha, hi, -, -⟩ := h.waiting hw
    simp only [Exchange.step, hw]
    refine h.settle hs (by rw [hw]; exact Option.some_ne_none _) _ h.replay (fun _ _ => rfl) ⟨ha, ?_⟩
    rw [Outbox.receipts_settle, if_pos rfl]
    cases reason <;> exact hi

theorem accept (h : Sound x stages mirror) (ticket : Nat)
    (hc : ∀ uri, changesSinceOpening uri (x.step (.accept ticket)).wire < 0x7FFFFFFF) :
    ∃ mirror, Sound (x.step (.accept ticket)) stages mirror := by
  cases hw : x.machine.outbox.waiting? ticket with
  | none =>
    refine ⟨mirror, ?_⟩
    simpa only [Exchange.step, hw] using h
  | some frame =>
    obtain ⟨t, uri, notice, after, result, hs, ha, hi, hl, rfl⟩ := h.waiting hw
    simp only [Exchange.step, hw] at hc ⊢
    refine ⟨mirror.put uri (after.map OpenDocument.copy), h.settle hs (by rw [hw]; exact Option.some_ne_none _) _
      (hl.hear h.replay hi (h.measured uri) (hc uri)) (fun u hu => Mirror.put_of_ne hu _) ⟨ha, ?_⟩⟩
    rw [Outbox.receipts_settle, if_pos rfl]
    exact Mirror.put_self _ _ _

theorem shut (h : Sound x stages mirror) (isShut : Bool) : Sound (x.step (.shut isShut)) stages mirror :=
  ⟨h.tasks, h.fresh, h.lined.of_lines rfl, ⟨h.ticketed.ticket_lt, h.ticketed.ticket_inj, h.ticketed.owner,
      h.ticketed.distinct, h.ticketed.receipt_lt, h.ticketed.settled⟩, h.replay,
    fun t u hu => (h.knows t u hu).frame (fun _ _ => ⟨rfl, rfl⟩) (fun _ _ => ⟨rfl, rfl⟩), h.idle, h.measured⟩

end Sound

/-! ## Whole runs -/

def Incident.Measured : Incident → Prop
  | begin op => op.Measured
  | _ => True

theorem wire_step (x : Exchange) (e : Incident) : x.wire <+: (x.step e).wire := by
  cases e with
  | accept ticket =>
    rw [Exchange.step]
    split
    · exact List.prefix_append _ _
    · exact List.prefix_rfl
  | reject ticket reason =>
    rw [Exchange.step]
    split
    all_goals exact List.prefix_rfl
  | _ => exact List.prefix_rfl

theorem sound_step {x : Exchange} {stages : Stages} {mirror : Mirror} (h : Sound x stages mirror) {e : Incident}
    (he : e.Measured) (hc : ∀ uri, changesSinceOpening uri (x.step e).wire < 0x7FFFFFFF) :
    ∃ stages mirror, Sound (x.step e) stages mirror := by
  cases e with
  | begin op => exact ⟨_, _, h.begin he⟩
  | setMode mode => exact ⟨_, _, h.setMode mode⟩
  | step task =>
    obtain ⟨stages', h'⟩ := h.step task
    exact ⟨stages', mirror, h'⟩
  | accept ticket =>
    obtain ⟨mirror', h'⟩ := h.accept ticket hc
    exact ⟨stages, mirror', h'⟩
  | reject ticket reason => exact ⟨_, _, h.reject ticket reason⟩
  | shut isShut => exact ⟨_, _, h.shut isShut⟩

theorem sound_run (o : ClientOptions) (files : FileTree) (state : SessionState) {incidents : List Incident}
    (hm : ∀ e ∈ incidents, e.Measured)
    (hc : ∀ frames, frames <+: (Exchange.run (.start o files state) incidents).wire → ∀ uri,
      changesSinceOpening uri frames < 0x7FFFFFFF) :
    ∃ stages mirror, Sound (Exchange.run (.start o files state) incidents) stages mirror := by
  induction incidents using List.reverseRecOn with
  | nil => exact ⟨_, _, sound_start o files state⟩
  | append_singleton incidents e ih =>
    rw [Exchange.run, List.foldl_append, List.foldl_cons, List.foldl_nil, ← Exchange.run] at hc ⊢
    obtain ⟨stages, mirror, h⟩ := ih (fun e' he' => hm e' (List.mem_append_left _ he'))
      fun frames hf => hc frames (hf.trans (wire_step _ e))
    exact sound_step h (hm e (List.mem_append_right _ (List.mem_singleton_self e)))
      fun uri => hc _ List.prefix_rfl uri

/-! ## Agreement -/

/-- Somebody whose notification about a document was accepted has still to take over its effect. -/
def Exchange.IsSettling (x : Exchange) (uri : String) : Prop :=
  ∃ task, (x.machine.line uri).head? = some task ∧
    ((∃ after next, x.machine.tasks.get? task = some (.step (.commit uri after) next)) ∨
      ∃ ticket next, x.machine.tasks.get? task = some (.step (.awaitReceipt ticket) next) ∧
        x.machine.outbox.receipts.get? ticket = some .written)

/-- The sink does not take the notification of a task, or has not accepted it. -/
def Exchange.IsRejected (x : Exchange) (task : TaskId) : Prop :=
  (∃ frame next, x.machine.tasks.get? task = some (.step (.enqueue frame) next) ∧
    x.machine.outbox.isStopped = true) ∨
  ∃ ticket next receipt, x.machine.tasks.get? task = some (.step (.awaitReceipt ticket) next) ∧
    x.machine.outbox.receipts.get? ticket = some receipt ∧ receipt ≠ .written

/-- All that is left to do for a task is to leave a document with an error. -/
def Exchange.HasFailed (x : Exchange) (task : TaskId) : Prop :=
  ∃ uri e, x.machine.tasks.get? task =
    some (.step (.leave uri) fun _ => .done (.finish (.error (.sync uri e))))

namespace Sound

variable {x : Exchange} {stages : Stages} {mirror : Mirror}

theorem inStep (h : Sound x stages mirror) {uri : String} (hn : ¬ x.IsSettling uri) :
    InStep x.machine mirror uri := by
  by_cases hturn : ∃ t s, stages t = some s ∧ s.turn? = some uri
  · obtain ⟨t, s, hs, ht⟩ := hturn
    have hk := h.knows t s hs
    have hhead := h.lined.head_line uri t s hs ht
    have htask := h.tasks t
    rw [hs, Option.map_some] at htask
    cases s with
    | arriving op => cases ht
    | queued op => cases ht
    | looking op =>
      obtain rfl := Option.some.inj ht
      exact hk.2
    | choosing u languageId text document =>
      obtain rfl := Option.some.inj ht
      exact hk.2.1
    | handing u notice after result =>
      obtain rfl := Option.some.inj ht
      exact hk.2.1
    | waiting u ticket notice after result =>
      obtain rfl := Option.some.inj ht
      obtain ⟨-, hk⟩ := hk
      rw [Stage.routine] at htask
      split at hk
      · exact hk.1
      · rename_i hr
        exact absurd ⟨t, hhead, .inr ⟨ticket, _, htask, hr⟩⟩ hn
      · exact hk
    | committing u after result =>
      obtain rfl := Option.some.inj ht
      rw [Stage.routine] at htask
      exact absurd ⟨t, hhead, .inl ⟨after, _, htask⟩⟩ hn
    | leaving u result =>
      obtain rfl := Option.some.inj ht
      exact hk
    | ended result => cases ht
  · exact h.idle uri fun t s hs ht => hturn ⟨t, s, hs, ht⟩

theorem hasFailed_of_advance {task : TaskId} (m₁ : Machine) {uri : String} {e : CallError}
    (hd : m₁.documents = x.machine.documents)
    (ha : x.machine.advance task =
      some { m₁ with tasks := m₁.tasks.insert task (Stage.failed uri e).routine }) :
    (x.step (.step task)).machine.documents = x.machine.documents ∧ (x.step (.step task)).HasFailed task := by
  rw [Exchange.step, ha]
  refine ⟨hd, uri, e, ?_⟩
  refine (Table.get?_insert task task _ _).trans ?_
  simp only [if_true, Stage.failed, Stage.routine]

theorem rejected (h : Sound x stages mirror) {task : TaskId} (hr : x.IsRejected task) :
    (x.step (.step task)).machine.documents = x.machine.documents ∧ (x.step (.step task)).HasFailed task := by
  have ht := h.tasks task
  obtain ⟨frame, next, he, hstop⟩ | ⟨ticket, next, receipt, he, hrec, hne⟩ := hr
  · rw [he] at ht
    obtain ⟨s, -, hs⟩ := Option.map_eq_some_iff.mp ht.symm
    cases s with
    | handing uri notice after result =>
      rw [← hs, Stage.routine] at he
      have ha : x.machine.advance task =
          some { x.machine with tasks := x.machine.tasks.insert task (Stage.failed uri writerClosed).routine } := by
        simp only [Machine.advance, he, Machine.perform, Outbox.isFull, hstop, Outbox.send]
        rfl
      exact hasFailed_of_advance x.machine rfl ha
    | _ =>
      rw [Stage.routine] at hs
      cases hs
  · rw [he] at ht
    obtain ⟨s, -, hs⟩ := Option.map_eq_some_iff.mp ht.symm
    cases s with
    | waiting uri k notice after result =>
      rw [Stage.routine] at hs
      cases hs
      let m₁ := { x.machine with
        outbox := { x.machine.outbox with receipts := x.machine.outbox.receipts.erase ticket } }
      have ha : x.machine.advance task =
          some { m₁ with tasks := m₁.tasks.insert task (Stage.told uri after result receipt).routine } := by
        simp only [Machine.advance, he, Machine.perform, Outbox.collect?, hrec]
        rfl
      cases receipt with
      | written => exact absurd rfl hne
      | failed reason => exact hasFailed_of_advance m₁ rfl ha
      | dropped => exact hasFailed_of_advance m₁ rfl ha
    | _ =>
      rw [Stage.routine] at hs
      cases hs

end Sound

/-- Whatever operations on documents are begun, in whatever order they take their steps, and whatever the sink
accepts: a server that is sent exactly the accepted frames can make sense of them all. It holds the documents
of the store, with their versions and texts, wherever no accepted notification has still to take effect. An
operation whose notification is rejected changes nothing. -/
theorem replay_agrees (o : ClientOptions) (files : FileTree) (state : SessionState) {incidents : List Incident}
    (hm : ∀ e ∈ incidents, e.Measured)
    (hc : ∀ frames, frames <+: (Exchange.run (.start o files state) incidents).wire → ∀ uri,
      changesSinceOpening uri frames < 0x7FFFFFFF) :
    let x := Exchange.run (.start o files state) incidents
    ∃ mirror, Mirror.replay x.wire = some mirror ∧
      (∀ uri, ¬ x.IsSettling uri → mirror uri = (x.machine.documents.get? uri).map OpenDocument.copy) ∧
      ∀ task, x.IsRejected task →
        (x.step (.step task)).machine.documents = x.machine.documents ∧ (x.step (.step task)).HasFailed task := by
  obtain ⟨stages, mirror, h⟩ := sound_run o files state hm hc
  exact ⟨mirror, h.replay, fun uri hn => h.inStep hn, fun task hr => h.rejected hr⟩

/-! ## A run -/

theorem changesSinceOpening_le (uri : String) (frames : List Json) :
    changesSinceOpening uri frames ≤ frames.length := by
  induction frames using List.reverseRecOn with
  | nil => exact Nat.le_refl _
  | append_singleton frames frame ih =>
    rw [changesSinceOpening, List.foldl_append, ← changesSinceOpening, List.foldl_cons, List.foldl_nil,
      List.length_append, List.length_singleton]
    cases Told.ofFrame? frame with
    | none => exact Nat.le_succ_of_le ih
    | some told =>
      rw [Option.map_some, Option.getD_some]
      cases told with
      | opened u version text =>
        rw [Told.count]
        split <;> omega
      | changed u version edits =>
        rw [Told.count]
        split <;> omega
      | closed u => exact Nat.le_succ_of_le ih

/-- One operation opens a document, and another one is about to change it when its notification is lost. -/
def lostChange : List Incident :=
  [.begin (.ensureOpen "a" "rust" "x\n"), .begin (.change "a" "rust" "x\ny"), .setMode .incremental] ++
    List.replicate 4 (.step 0) ++ List.replicate 2 (.step 1) ++ [.accept 0] ++ List.replicate 4 (.step 0) ++
    List.replicate 4 (.step 1) ++ [.reject 1 none] ++ List.replicate 3 (.step 1)

theorem replay_agrees_lostChange :
    let x := Exchange.run (.start ⟨"rust", "rust", [], none, 1, 1, .null⟩ ⟨[], []⟩ .starting) lostChange
    x.wire.length = 1 ∧ ∃ mirror, Mirror.replay x.wire = some mirror ∧ mirror "a" = some ⟨1, "x\n"⟩ := by
  have hlength : (Exchange.run (.start ⟨"rust", "rust", [], none, 1, 1, .null⟩ ⟨[], []⟩ .starting)
      lostChange).wire.length = 1 := by decide +kernel
  have hm : ∀ e ∈ lostChange, e.Measured := by
    intro e he
    cases e with
    | begin op =>
      have hop : op = .ensureOpen "a" "rust" "x\n" ∨ op = .change "a" "rust" "x\ny" := by
        simpa [lostChange] using he
      rcases hop with rfl | rfl
      all_goals
        intro text ht
        obtain rfl := Option.some.inj ht
        exact measured_of_length (by decide)
    | _ => trivial
  have hc : ∀ frames, frames <+: (Exchange.run (.start ⟨"rust", "rust", [], none, 1, 1, .null⟩ ⟨[], []⟩ .starting)
      lostChange).wire → ∀ uri, changesSinceOpening uri frames < 0x7FFFFFFF := by
    intro frames hf uri
    have h₁ := changesSinceOpening_le uri frames
    have h₂ := hf.length_le
    omega
  obtain ⟨mirror, hr, ha, -⟩ := replay_agrees _ _ _ hm hc
  refine ⟨hlength, mirror, hr, ?_⟩
  rw [ha "a"]
  · decide +kernel
  · rintro ⟨task, hhead, -⟩
    have hline : (Exchange.run (.start ⟨"rust", "rust", [], none, 1, 1, .null⟩ ⟨[], []⟩ .starting)
        lostChange).machine.line "a" = [] := by decide +kernel
    rw [hline] at hhead
    cases hhead

end Liaison
