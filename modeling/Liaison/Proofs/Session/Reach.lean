import Liaison.Session.Machine

/-!
# What an action reaches

Every action changes a few parts of a session and leaves the others as they are.
-/

namespace Liaison

inductive Machine.Part where
  | state
  | registry
  | nextId
  | callers
  | documents
  | lines
  | diagnostics
  | process
  | tasks
deriving DecidableEq

def Action.reach : Action → List Machine.Part
  | transition _ _ | terminate => [.state]
  | nextId => [.nextId]
  | register _ => [.registry, .callers]
  | awaitReply _ _ | expire _ | collect _ | abandon _ | fulfill _ _ | cancel _ _ | closeCalls _ => [.registry]
  | commit _ _ | setSyncMode _ => [.documents]
  | lineUp _ | leave _ => [.lines]
  | publish _ | giveNotice | forgetVersion _ => [.diagnostics]
  | kill | awaitChild | publishExit _ => [.process]
  | spawn _ => [.tasks]
  | _ => []

/-- What is outside of the action's reach is the same afterwards. -/
structure Action.Spares (a : Action) (m m' : Machine) : Prop where
  state : .state ∉ a.reach → m'.state = m.state
  registry : .registry ∉ a.reach → m'.registry = m.registry
  nextId : .nextId ∉ a.reach → m'.nextId = m.nextId
  callers : .callers ∉ a.reach → m'.callers = m.callers
  documents : .documents ∉ a.reach → m'.documents = m.documents
  lines : .lines ∉ a.reach → m'.lines = m.lines
  diagnostics : .diagnostics ∉ a.reach → m'.diagnostics = m.diagnostics
  process : .process ∉ a.reach → m'.process = m.process
  tasks : .tasks ∉ a.reach → m'.tasks = m.tasks ∧ m'.nextTask = m.nextTask

theorem Action.Spares.refl (a : Action) (m : Machine) : a.Spares m m :=
  ⟨fun _ => rfl, fun _ => rfl, fun _ => rfl, fun _ => rfl, fun _ => rfl, fun _ => rfl, fun _ => rfl,
    fun _ => rfl, fun _ => ⟨rfl, rfl⟩⟩

theorem spares_perform {m m' : Machine} {t : TaskId} {a : Action} {answer : a.Answer}
    (h : m.perform t a = some (answer, m')) : a.Spares m m' := by
  cases a with
  | awaitEnd | awaitTurn uri =>
    simp only [Machine.perform] at h
    split at h <;> cases h
    exact .refl _ _
  | register id =>
    simp only [Machine.perform, Machine.register] at h
    split at h <;> cases h <;> constructor <;> simp [Action.reach]
  | awaitReply id limit =>
    simp only [Machine.perform, Machine.awaitReply] at h
    split at h
    · cases h
      constructor <;> simp [Action.reach]
    · split at h <;> cases h
      exact .refl _ _
  | collect id =>
    simp only [Machine.perform, Machine.collect] at h
    split at h <;> cases h <;> constructor <;> simp [Action.reach]
  | enqueue _ | enqueueClose | nextInbound =>
    simp only [Machine.perform] at h
    split at h <;> cases h
    constructor <;> simp [Action.reach]
  | awaitReceipt _ | nextErrand | nextFrame =>
    obtain ⟨_, _, he⟩ := Option.map_eq_some_iff.mp h
    cases he
    constructor <;> simp [Action.reach]
  | awaitExit limit =>
    obtain ⟨_, _, he⟩ := Option.map_eq_some_iff.mp h
    cases he
    exact .refl _ _
  | publish set =>
    simp only [Machine.perform, Machine.publish] at h
    split at h <;> cases h <;> constructor <;> simp [Action.reach]
  | awaitNotice seen limit =>
    simp only [Machine.perform] at h
    split at h
    · cases h
      exact .refl _ _
    · split at h <;> cases h
      exact .refl _ _
  | awaitChild =>
    simp only [Machine.perform, Machine.awaitChild] at h
    split at h
    · cases h
    · split at h
      · cases h
        exact .refl _ _
      · split at h <;> cases h
        constructor <;> simp [Action.reach]
  | _ =>
    cases h
    constructor <;> simp [Action.reach, Machine.present, Machine.addTask, Machine.doom]

theorem process_perform {m m' : Machine} {t : TaskId} {a : Action} {answer : a.Answer}
    (h : m.perform t a = some (answer, m')) :
    m'.process = m.process ∨
      (a = .kill ∧ m'.process = m.process.map fun p => { p with isDoomed := true }) ∨
      (a = .awaitChild ∧ m'.process = m.process.map fun p => { p with child := some .kill }) ∨
      ∃ status, a = .publishExit status ∧ m'.process = m.process.map fun p => { p with published := some status } := by
  cases a with
  | kill =>
    cases h
    exact .inr (.inl ⟨rfl, rfl⟩)
  | publishExit status =>
    cases h
    exact .inr (.inr (.inr ⟨status, rfl, rfl⟩))
  | awaitChild =>
    simp only [Machine.perform, Machine.awaitChild] at h
    split at h
    · cases h
    · rename_i p hp
      split at h
      · cases h
        exact .inl rfl
      · split at h <;> cases h
        refine .inr (.inr (.inl ⟨rfl, ?_⟩))
        rw [hp]
        rfl
  | _ => exact .inl ((spares_perform h).process (by simp [Action.reach]))

end Liaison
