import Liaison.Session.Machine

/-!
# What an action does to the streams

What the server sends and what it is sent goes through queues, and what it says is shown to those who asked for it.
Every action touches at most one of these streams.
-/

namespace Liaison

inductive Machine.Stream where
  | inlet
  | inbound
  | outbox
  | outlet
  | shown
deriving DecidableEq

def Action.stream? : Action → Option Machine.Stream
  | nextFrame => some .inlet
  | forward _ | nextInbound => some .inbound
  | enqueue _ | enqueueClose | awaitReceipt _ | nextErrand | giveReceipt _ _ | stopWriting => some .outbox
  | write _ | closeOutput => some .outlet
  | present _ _ => some .shown
  | _ => none

structure Action.SparesStreams (a : Action) (m m' : Machine) : Prop where
  inlet : a.stream? ≠ some .inlet → m'.inlet = m.inlet
  inbound : a.stream? ≠ some .inbound → m'.inbound = m.inbound
  outbox : a.stream? ≠ some .outbox → m'.outbox = m.outbox
  outlet : a.stream? ≠ some .outlet → m'.outlet = m.outlet
  shown : a.stream? ≠ some .shown → m'.shown = m.shown
  results : m'.results = m.results
  handlers : m'.handlers = m.handlers

theorem Action.SparesStreams.refl (a : Action) (m : Machine) : a.SparesStreams m m :=
  ⟨fun _ => rfl, fun _ => rfl, fun _ => rfl, fun _ => rfl, fun _ => rfl, rfl, rfl⟩

theorem streams_perform {m m' : Machine} {t : TaskId} {a : Action} {answer : a.Answer}
    (h : m.perform t a = some (answer, m')) : a.SparesStreams m m' := by
  cases a with
  | awaitEnd | awaitTurn uri =>
    simp only [Machine.perform] at h
    split at h <;> cases h
    exact .refl _ _
  | register id =>
    simp only [Machine.perform, Machine.register] at h
    split at h <;> cases h <;> constructor <;> simp
  | awaitReply id limit =>
    simp only [Machine.perform, Machine.awaitReply] at h
    split at h
    · cases h
      constructor <;> simp
    · split at h <;> cases h
      exact .refl _ _
  | collect id =>
    simp only [Machine.perform, Machine.collect] at h
    split at h <;> cases h <;> constructor <;> simp
  | enqueue _ | enqueueClose | nextInbound =>
    simp only [Machine.perform] at h
    split at h <;> cases h
    constructor <;> simp [Action.stream?]
  | awaitReceipt _ | nextErrand | nextFrame =>
    obtain ⟨_, _, he⟩ := Option.map_eq_some_iff.mp h
    cases he
    constructor <;> simp [Action.stream?]
  | awaitExit limit =>
    obtain ⟨_, _, he⟩ := Option.map_eq_some_iff.mp h
    cases he
    exact .refl _ _
  | publish set =>
    simp only [Machine.perform, Machine.publish] at h
    split at h <;> cases h <;> constructor <;> simp
  | awaitNotice seen limit =>
    simp only [Machine.perform] at h
    split at h
    · cases h
      exact .refl _ _
    · split at h <;> cases h
      exact .refl _ _
  | awaitChild =>
    simp only [Machine.perform, Machine.awaitChild] at h
    split at h
    · cases h
    · split at h
      · cases h
        exact .refl _ _
      · split at h <;> cases h
        constructor <;> simp
  | _ =>
    cases h
    constructor <;> simp [Action.stream?, Machine.present, Machine.addTask, Machine.doom]

end Liaison
