import Liaison.Proofs.Document.Mirror
import Liaison.Proofs.Session.Tickets

/-!
# Operations on documents at the same time

Any number of operations on documents are tasks of a session without services. Whoever stands in for the
writer takes their notifications in any order, and accepts or rejects each as it likes. An operation is
always at one of a few stages, and a step takes it to the next.
-/

namespace Liaison

inductive DocumentOperation where
  | ensureOpen (uri languageId text : String)
  | change (uri languageId text : String)
  | close (uri : String)

namespace DocumentOperation

def uri : DocumentOperation → String
  | ensureOpen uri _ _ => uri
  | change uri _ _ => uri
  | close uri => uri

def text? : DocumentOperation → Option String
  | ensureOpen _ _ text => some text
  | change _ _ text => some text
  | close _ => none

def routine : DocumentOperation → Routine Next
  | ensureOpen uri languageId text => finishing .flag (openDocument uri languageId text)
  | change uri languageId text => finishing .version (changeDocument uri languageId text)
  | close uri => finishing .flag (closeDocument uri)

end DocumentOperation

/-! ## The sink -/

/-- A session with operations on documents, and the frames that were accepted so far. -/
structure Exchange where
  machine : Machine
  wire : List Json

inductive Incident where
  | begin (op : DocumentOperation)
  | setMode (mode : SyncMode)
  | step (task : TaskId)
  | accept (ticket : Nat)
  | reject (ticket : Nat) (reason : Option String)
  /-- From now on the sink takes nothing more, or takes everything again. -/
  | shut (isShut : Bool)

namespace Exchange

def start (o : ClientOptions) (files : FileTree) (state : SessionState) : Exchange :=
  ⟨.blank o files state, []⟩

def withOutbox (x : Exchange) (o : Outbox) : Exchange :=
  { x with machine := { x.machine with outbox := o } }

def step (x : Exchange) : Incident → Exchange
  | .begin op => { x with machine := x.machine.addTask op.routine }
  | .setMode mode =>
    { x with machine := { x.machine with documents := { x.machine.documents with mode := mode } } }
  | .step task => { x with machine := (x.machine.advance task).getD x.machine }
  | .accept ticket =>
    match x.machine.outbox.waiting? ticket with
    | some frame => { x.withOutbox (x.machine.outbox.settle ticket .written) with wire := x.wire ++ [frame] }
    | none => x
  | .reject ticket reason =>
    match x.machine.outbox.waiting? ticket with
    | some _ => x.withOutbox (x.machine.outbox.settle ticket ((reason.map Receipt.failed).getD .dropped))
    | none => x
  | .shut isShut => x.withOutbox { x.machine.outbox with isStopped := isShut }

def run (x : Exchange) (incidents : List Incident) : Exchange :=
  incidents.foldl step x

end Exchange

/-! ## Stages -/

inductive Stage where
  | arriving (op : DocumentOperation)
  | queued (op : DocumentOperation)
  | looking (op : DocumentOperation)
  | choosing (uri languageId text : String) (document : Option OpenDocument)
  | handing (uri : String) (notice : Notice) (after : Option OpenDocument) (result : Result)
  | waiting (uri : String) (ticket : Nat) (notice : Notice) (after : Option OpenDocument) (result : Result)
  | committing (uri : String) (after : Option OpenDocument) (result : Result)
  | leaving (uri : String) (result : Result)
  | ended (result : Result)

namespace Stage

def ofPlan {α : Type} (uri : String) (found : α → Finding) : DocumentPlan α → Stage
  | .keep answer => leaving uri (.ok (found answer))
  | .send notice after answer => handing uri notice after (.ok (found answer))

def look (document : Option OpenDocument) : DocumentOperation → Stage
  | .ensureOpen uri languageId text =>
    ofPlan uri .flag (DocumentStore.planOpen document uri languageId text)
  | .change uri languageId text => choosing uri languageId text document
  | .close uri => ofPlan uri .flag (DocumentStore.planClose document uri)

def choose (uri languageId text : String) (document : Option OpenDocument) (mode : SyncMode) : Stage :=
  ofPlan uri .version (DocumentStore.planChange document mode uri languageId text)

def failed (uri : String) (e : CallError) : Stage :=
  leaving uri (.error (.sync uri e))

def told (uri : String) (after : Option OpenDocument) (result : Result) : Receipt → Stage
  | .written => committing uri after result
  | .failed reason => failed uri (.transport ("write failed: " ++ reason))
  | .dropped => failed uri writerClosed

def rank : Stage → Nat
  | arriving _ => 8
  | queued _ => 7
  | looking _ => 6
  | choosing _ _ _ _ => 5
  | handing _ _ _ _ => 4
  | waiting _ _ _ _ _ => 3
  | committing _ _ _ => 2
  | leaving _ _ => 1
  | ended _ => 0

theorem rank_ofPlan {α : Type} (uri : String) (found : α → Finding) (plan : DocumentPlan α) :
    (ofPlan uri found plan).rank ≤ 4 := by
  cases plan <;> simp [ofPlan, rank]

theorem rank_look (document : Option OpenDocument) (op : DocumentOperation) : (look document op).rank ≤ 5 := by
  cases op
  case change => exact Nat.le_refl 5
  all_goals exact (rank_ofPlan _ _ _).trans (by decide)

theorem rank_told (uri : String) (after : Option OpenDocument) (result : Result) (receipt : Receipt) :
    (told uri after result receipt).rank ≤ 2 := by
  cases receipt <;> simp [told, failed, rank]

def routine : Stage → Routine Next
  | arriving op => .step (.lineUp op.uri) fun _ => (queued op).routine
  | queued op => .step (.awaitTurn op.uri) fun _ => (looking op).routine
  | looking op => .step (.document op.uri) fun document => (look document op).routine
  | choosing uri languageId text document =>
    .step .syncMode fun mode => (choose uri languageId text document mode).routine
  | handing uri notice after result =>
    .step (.enqueue notice.frame) fun
      | some ticket => (waiting uri ticket notice after result).routine
      | none => (failed uri writerClosed).routine
  | waiting uri ticket _ after result =>
    .step (.awaitReceipt ticket) fun receipt => (told uri after result receipt).routine
  | committing uri after result => .step (.commit uri after) fun _ => (leaving uri result).routine
  | leaving uri result => .step (.leave uri) fun _ => (ended result).routine
  | ended result => .done (.finish result)
termination_by s => s.rank
decreasing_by
  all_goals simp only [rank, failed]
  all_goals first
    | decide
    | exact Nat.lt_succ_of_le (rank_look _ _)
    | exact Nat.lt_succ_of_le (rank_ofPlan _ _ _)
    | exact Nat.lt_succ_of_le (rank_told _ _ _ _)

theorem routine_ofPlan {α : Type} (uri : String) (found : α → Finding) (plan : DocumentPlan α) :
    finishing found (do
      let result ← (carryOut uri plan).outcome
      act (.leave uri)
      Attempt.ofExcept result) = (ofPlan uri found plan).routine := by
  cases plan with
  | keep answer =>
    rw [ofPlan, routine]
    refine Routine.step_congr (.leave uri) ?_
    intro _
    rw [routine]
    rfl
  | send notice after answer =>
    rw [ofPlan, routine]
    refine Routine.step_congr (.enqueue notice.frame) ?_
    intro ticket
    cases ticket with
    | none =>
      simp only [failed, routine]
      rfl
    | some ticket =>
      simp only [routine]
      refine Routine.step_congr (.awaitReceipt ticket) ?_
      intro receipt
      cases receipt
      all_goals
        simp only [told, failed, routine]
        rfl

end Stage

theorem DocumentOperation.routine_eq (op : DocumentOperation) : op.routine = (Stage.arriving op).routine := by
  rw [Stage.routine]
  cases op with
  | ensureOpen uri languageId text =>
    refine Routine.step_congr (.lineUp uri) ?_
    intro _
    rw [Stage.routine]
    refine Routine.step_congr (.awaitTurn uri) ?_
    intro _
    rw [Stage.routine]
    exact Routine.step_congr (.document uri) fun document => Stage.routine_ofPlan uri .flag _
  | change uri languageId text =>
    refine Routine.step_congr (.lineUp uri) ?_
    intro _
    rw [Stage.routine]
    refine Routine.step_congr (.awaitTurn uri) ?_
    intro _
    rw [Stage.routine]
    refine Routine.step_congr (.document uri) ?_
    intro document
    rw [Stage.look, Stage.routine]
    exact Routine.step_congr .syncMode fun mode => Stage.routine_ofPlan uri .version _
  | close uri =>
    refine Routine.step_congr (.lineUp uri) ?_
    intro _
    rw [Stage.routine]
    refine Routine.step_congr (.awaitTurn uri) ?_
    intro _
    rw [Stage.routine]
    exact Routine.step_congr (.document uri) fun document => Stage.routine_ofPlan uri .flag _

/-! ## Steps -/

inductive Moves (m : Machine) (task : TaskId) : Stage → Stage → Machine → Prop
  | lineUp (op : DocumentOperation) :
    Moves m task (.arriving op) (.queued op)
      { m with lines := m.lines.insert op.uri (m.line op.uri ++ [task]) }
  | takeTurn (op : DocumentOperation) (h : (m.line op.uri).head? = some task) :
    Moves m task (.queued op) (.looking op) m
  | look (op : DocumentOperation) :
    Moves m task (.looking op) (.look (m.documents.get? op.uri) op) m
  | choose (uri languageId text : String) (document : Option OpenDocument) :
    Moves m task (.choosing uri languageId text document)
      (.choose uri languageId text document m.documents.mode) m
  | refuse (uri : String) (notice : Notice) (after : Option OpenDocument) (result : Result)
    (h : m.outbox.isStopped = true) :
    Moves m task (.handing uri notice after result) (.failed uri writerClosed) m
  | hand (uri : String) (notice : Notice) (after : Option OpenDocument) (result : Result) :
    Moves m task (.handing uri notice after result) (.waiting uri m.outbox.nextTicket notice after result)
      { m with outbox := { m.outbox with
          errands := m.outbox.errands ++ [.send notice.frame m.outbox.nextTicket]
          nextTicket := m.outbox.nextTicket + 1 } }
  | hear (uri : String) (ticket : Nat) (notice : Notice) (after : Option OpenDocument) (result : Result)
    (receipt : Receipt) (h : m.outbox.receipts.get? ticket = some receipt) :
    Moves m task (.waiting uri ticket notice after result) (.told uri after result receipt)
      { m with outbox := { m.outbox with receipts := m.outbox.receipts.erase ticket } }
  | commit (uri : String) (after : Option OpenDocument) (result : Result) :
    Moves m task (.committing uri after result) (.leaving uri result)
      { m with documents := m.documents.commit uri after }
  | leave (uri : String) (result : Result) :
    Moves m task (.leaving uri result) (.ended result)
      { m with lines := m.lines.insert uri ((m.line uri).erase task) }

theorem advance_stage {m m' : Machine} {task : TaskId} {s : Stage} (hs : m.tasks.get? task = some s.routine)
    (h : m.advance task = some m') :
    (∃ result, s = .ended result ∧
      m' = { m with tasks := m.tasks.erase task, results := m.results.insert task result }) ∨
    ∃ s' m₁, Moves m task s s' m₁ ∧ m' = { m₁ with tasks := m₁.tasks.insert task s'.routine } := by
  cases s with
  | arriving op =>
    rw [Stage.routine] at hs
    simp only [Machine.advance, hs, Machine.perform, Option.map_some, Option.some.injEq] at h
    exact .inr ⟨_, _, .lineUp op, h.symm⟩
  | queued op =>
    rw [Stage.routine] at hs
    simp only [Machine.advance, hs, Machine.perform] at h
    split at h
    · rename_i ht
      exact .inr ⟨_, _, .takeTurn op ht, (Option.some.inj h).symm⟩
    · cases h
  | looking op =>
    rw [Stage.routine] at hs
    simp only [Machine.advance, hs, Machine.perform, Option.map_some, Option.some.injEq] at h
    exact .inr ⟨_, _, .look op, h.symm⟩
  | choosing uri languageId text document =>
    rw [Stage.routine] at hs
    simp only [Machine.advance, hs, Machine.perform, Option.map_some, Option.some.injEq] at h
    exact .inr ⟨_, _, .choose uri languageId text document, h.symm⟩
  | handing uri notice after result =>
    rw [Stage.routine] at hs
    simp only [Machine.advance, hs, Machine.perform, Outbox.send] at h
    split at h
    · cases h
    · by_cases hstop : m.outbox.isStopped = true
      · rw [if_pos hstop] at h
        exact .inr ⟨_, _, .refuse uri notice after result hstop, (Option.some.inj h).symm⟩
      · rw [if_neg hstop] at h
        exact .inr ⟨_, _, .hand uri notice after result, (Option.some.inj h).symm⟩
  | waiting uri ticket notice after result =>
    rw [Stage.routine] at hs
    simp only [Machine.advance, hs, Machine.perform, Outbox.collect?, Option.map_map] at h
    obtain ⟨receipt, hr, h⟩ := Option.map_eq_some_iff.mp h
    exact .inr ⟨_, _, .hear uri ticket notice after result receipt hr, h.symm⟩
  | committing uri after result =>
    rw [Stage.routine] at hs
    simp only [Machine.advance, hs, Machine.perform, Option.map_some, Option.some.injEq] at h
    exact .inr ⟨_, _, .commit uri after result, h.symm⟩
  | leaving uri result =>
    rw [Stage.routine] at hs
    simp only [Machine.advance, hs, Machine.perform, Option.map_some, Option.some.injEq] at h
    exact .inr ⟨_, _, .leave uri result, h.symm⟩
  | ended result =>
    rw [Stage.routine] at hs
    simp only [Machine.advance, hs, Option.some.injEq] at h
    exact .inl ⟨result, rfl, h.symm⟩

end Liaison
