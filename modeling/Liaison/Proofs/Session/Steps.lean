import Liaison.Proofs.Session.Duties
import Liaison.Proofs.Session.History

/-!
# Steps of a session

A step takes a task from its duty to the next one. All that it can do is said once, as a relation, together
with the deed that it leaves in the history.
-/

namespace Liaison

inductive CallStage.Step (o : Order) (m : Machine) (t : TaskId) : CallStage → Deed → CallStage → Machine → Prop
  | number :
    Step o m t .numbering ⟨t, .nextId, m.nextId⟩ (.timing m.nextId) { m with nextId := m.nextId + 1 }
  | time (id : Nat) :
    Step o m t (.timing id) ⟨t, .deadline o.timeout, o.timeout.map (m.now + ·)⟩
      (.registering id (o.timeout.map (m.now + ·))) m
  | register (id : Nat) (limit : Option Nat) (r : Registry) (h : m.registry.register id = .ok r) :
    Step o m t (.registering id limit) ⟨t, .register id, .ok ()⟩ (.handing id limit)
      { m with registry := r, callers := m.callers.insert id t }
  | refuse (id : Nat) (limit : Option Nat) (e : CallError) (h : m.registry.register id = .error e) :
    Step o m t (.registering id limit) ⟨t, .register id, .error e⟩ (.ended (.error e)) m
  | hand (id : Nat) (limit : Option Nat) (h : m.outbox.isStopped = false) :
    Step o m t (.handing id limit) ⟨t, .enqueue (o.frame id), some m.outbox.nextTicket⟩
      (.sent id limit m.outbox.nextTicket)
      { m with outbox := { m.outbox with
          errands := m.outbox.errands ++ [.send (o.frame id) m.outbox.nextTicket]
          nextTicket := m.outbox.nextTicket + 1 } }
  | miss (id : Nat) (limit : Option Nat) (h : m.outbox.isStopped = true) :
    Step o m t (.handing id limit) ⟨t, .enqueue (o.frame id), none⟩ (.givingUp id writerClosed) m
  | hear (id : Nat) (limit : Option Nat) (ticket : Nat) (receipt : Receipt)
    (h : m.outbox.receipts.get? ticket = some receipt) :
    Step o m t (.sent id limit ticket) ⟨t, .awaitReceipt ticket, receipt⟩ (.told id limit receipt)
      { m with outbox := { m.outbox with receipts := m.outbox.receipts.erase ticket } }
  | giveUp (id : Nat) (e : CallError) :
    Step o m t (.givingUp id e) ⟨t, .abandon id, ()⟩ (.ended (.error e))
      { m with registry := m.registry.abandon id }
  | take (id : Nat) (limit : Option Nat) (reply : Reply) (h : m.registry.settled.get? id = some reply) :
    Step o m t (.waiting id limit) ⟨t, .awaitReply id limit, some reply⟩ (.ended (reply.map .answer))
      { m with registry := { m.registry with settled := m.registry.settled.erase id } }
  | tire (id : Nat) (limit : Option Nat) (h : m.registry.settled.get? id = none) (ho : m.isOver limit = true) :
    Step o m t (.waiting id limit) ⟨t, .awaitReply id limit, none⟩ (.expiring id) m
  | expire (id : Nat) (h : id ∈ m.registry.pending) :
    Step o m t (.expiring id) ⟨t, .expire id, true⟩ (.ended o.late)
      { m with registry := (m.registry.expire id).1 }
  | outrun (id : Nat) (h : id ∉ m.registry.pending) :
    Step o m t (.expiring id) ⟨t, .expire id, false⟩ (.collecting id)
      { m with registry := (m.registry.expire id).1 }
  | collect (id : Nat) (reply : Reply) (h : m.registry.settled.get? id = some reply) :
    Step o m t (.collecting id) ⟨t, .collect id, some reply⟩ (.ended (reply.map .answer))
      { m with registry := { m.registry with settled := m.registry.settled.erase id } }
  | lack (id : Nat) (h : m.registry.settled.get? id = none) :
    Step o m t (.collecting id) ⟨t, .collect id, none⟩ (.ended o.late) m

inductive Duty.Step (m : Machine) (t : TaskId) : Duty → Deed → Duty → Machine → Prop
  | call {o : Order} {s s' : CallStage} {d : Deed} {m₁ : Machine} (h : CallStage.Step o m t s d s' m₁) :
    Step m t (.call o s) d (.call o s') m₁
  | hand (method : String) (params : Option Json) (h : m.outbox.isStopped = false) :
    Step m t (.notifying method params)
      ⟨t, .enqueue (Message.notification method params).toJson, some m.outbox.nextTicket⟩
      (.notified m.outbox.nextTicket)
      { m with outbox := { m.outbox with
          errands := m.outbox.errands ++ [.send (Message.notification method params).toJson m.outbox.nextTicket]
          nextTicket := m.outbox.nextTicket + 1 } }
  | miss (method : String) (params : Option Json) (h : m.outbox.isStopped = true) :
    Step m t (.notifying method params) ⟨t, .enqueue (Message.notification method params).toJson, none⟩
      (.ended (.error writerClosed)) m
  | hear (ticket : Nat) (receipt : Receipt) (h : m.outbox.receipts.get? ticket = some receipt) :
    Step m t (.notified ticket) ⟨t, .awaitReceipt ticket, receipt⟩ (.ended (toldOf receipt))
      { m with outbox := { m.outbox with receipts := m.outbox.receipts.erase ticket } }
  | cancel (id : Nat) (reason : String) :
    Step m t (.cancelling id reason) ⟨t, .cancel id reason, (m.registry.cancel id reason).2⟩
      (.ended (.ok (.flag (m.registry.cancel id reason).2)))
      { m with registry := (m.registry.cancel id reason).1 }
  | shut : Step m t .shutting ⟨t, .enqueueClose, ()⟩ (.ended nothing) { m with outbox := m.outbox.close }
  | pick (frame : Json) (ticket : Nat) (errands : List Errand)
    (h : m.outbox.errands = .send frame ticket :: errands) :
    Step m t .idle ⟨t, .nextErrand, .send frame ticket⟩ (.holding frame ticket)
      { m with outbox := { m.outbox with errands := errands } }
  | pickClose (errands : List Errand) (h : m.outbox.errands = .close :: errands) :
    Step m t .idle ⟨t, .nextErrand, .close⟩ .closingOutput
      { m with outbox := { m.outbox with errands := errands } }
  | write (frame : Json) (ticket : Nat) :
    Step m t (.holding frame ticket) ⟨t, .write frame, (m.outlet.write frame).1⟩
      (.telling ticket (m.outlet.write frame).1) { m with outlet := (m.outlet.write frame).2 }
  | tell (ticket : Nat) (result : Except String Unit) :
    Step m t (.telling ticket result) ⟨t, .giveReceipt ticket (receiptFor result), ()⟩ (toldBy result)
      { m with outbox := m.outbox.receipt ticket (receiptFor result) }
  | closeOutput :
    Step m t .closingOutput ⟨t, .closeOutput, ()⟩ .stopping { m with outlet := { m.outlet with isClosed := true } }
  | stop : Step m t .stopping ⟨t, .stopWriting, ()⟩ (.ended nothing) { m with outbox := m.outbox.stop }
  | read (event : Frame.Event) (inlet : Inlet) (h : m.inlet.next? = some (event, inlet)) :
    Step m t .listening ⟨t, .nextFrame, event⟩ (onEvent event) { m with inlet := inlet }
  | deliver (id : Nat) (reply : Reply) :
    Step m t (.delivering id reply) ⟨t, .fulfill id reply, ()⟩ (.resuming false)
      { m with registry := (m.registry.fulfill id reply).1 }
  | forward (inbound : Inbound) :
    Step m t (.forwarding inbound) ⟨t, .forward inbound, ()⟩ (.resuming false)
      { m with inbound := m.inbound ++ [inbound] }
  | fail (reason : String) (isWriter : Bool) :
    Step m t (.failing reason isWriter) ⟨t, .closeCalls reason, ()⟩ (.terminating isWriter)
      { m with registry := m.registry.closeAll reason }
  | terminate (isWriter : Bool) :
    Step m t (.terminating isWriter) ⟨t, .terminate, ()⟩ (onEnd isWriter)
      { m with state := m.state.terminate.1 }

/-- What a task does when it takes its next step, if it does anything. -/
def Machine.deed? (m : Machine) (t : TaskId) : Option Deed :=
  match m.tasks.get? t with
  | some (.step action _) => (m.perform t action).map fun p => ⟨t, action, p.1⟩
  | _ => none

section

variable {m m' : Machine} {t : TaskId}

theorem advance_step {action : Action} {next : action.Answer → Routine Next}
    (ht : m.tasks.get? t = some (.step action next)) (h : m.advance t = some m') :
    ∃ answer m₁, m.perform t action = some (answer, m₁) ∧ m.deed? t = some ⟨t, action, answer⟩ ∧
      m' = { m₁ with tasks := m₁.tasks.insert t (next answer) } := by
  rw [Machine.advance, ht] at h
  obtain ⟨⟨answer, m₁⟩, hp, he⟩ := Option.map_eq_some_iff.mp h
  refine ⟨answer, m₁, hp, ?_, he.symm⟩
  rw [Machine.deed?, ht]
  simp only [hp, Option.map_some]

theorem exists_routine (h : m.advance t = some m') : ∃ r, m.tasks.get? t = some r := by
  rw [Machine.advance] at h
  cases ht : m.tasks.get? t with
  | none =>
    rw [ht] at h
    cases h
  | some r => exact ⟨r, rfl⟩

theorem deed?_eq_none (h : m.advance t = none) : m.deed? t = none := by
  rw [Machine.deed?]
  split
  · rename_i action next ht
    rw [Machine.advance, ht] at h
    rw [Option.map_eq_none_iff.mp h]
    rfl
  · rfl

theorem advance_call {o : Order} {s : CallStage} (ht : m.tasks.get? t = some (s.routine o))
    (h : m.advance t = some m') :
    (∃ result, s = .ended result) ∨
    ∃ d s' m₁, CallStage.Step o m t s d s' m₁ ∧ m.deed? t = some d ∧
      m' = { m₁ with tasks := m₁.tasks.insert t (s'.routine o) } := by
  cases s with
  | numbering =>
    rw [CallStage.routine] at ht
    obtain ⟨answer, m₁, hp, hd, rfl⟩ := advance_step ht h
    cases hp
    exact .inr ⟨_, _, _, .number, hd, rfl⟩
  | timing id =>
    rw [CallStage.routine] at ht
    obtain ⟨answer, m₁, hp, hd, rfl⟩ := advance_step ht h
    cases hp
    exact .inr ⟨_, _, _, .time id, hd, rfl⟩
  | registering id limit =>
    rw [CallStage.routine] at ht
    obtain ⟨answer, m₁, hp, hd, rfl⟩ := advance_step ht h
    simp only [Machine.perform, Machine.register] at hp
    split at hp
    · rename_i r hr
      cases hp
      exact .inr ⟨_, _, _, .register id limit r hr, hd, rfl⟩
    · rename_i e hr
      cases hp
      exact .inr ⟨_, _, _, .refuse id limit e hr, hd, rfl⟩
  | handing id limit =>
    rw [CallStage.routine] at ht
    obtain ⟨answer, m₁, hp, hd, rfl⟩ := advance_step ht h
    simp only [Machine.perform, Outbox.send] at hp
    split at hp
    · cases hp
    · by_cases hstop : m.outbox.isStopped = true
      · rw [if_pos hstop] at hp
        cases hp
        exact .inr ⟨_, _, _, .miss id limit hstop, hd, rfl⟩
      · rw [if_neg hstop] at hp
        cases hp
        exact .inr ⟨_, _, _, .hand id limit (Bool.eq_false_iff.mpr hstop), hd, rfl⟩
  | sent id limit ticket =>
    rw [CallStage.routine] at ht
    obtain ⟨answer, m₁, hp, hd, rfl⟩ := advance_step ht h
    simp only [Machine.perform, Outbox.collect?, Option.map_map] at hp
    obtain ⟨receipt, hr, he⟩ := Option.map_eq_some_iff.mp hp
    cases he
    exact .inr ⟨_, _, _, .hear id limit ticket receipt hr, hd, rfl⟩
  | givingUp id e =>
    rw [CallStage.routine] at ht
    obtain ⟨answer, m₁, hp, hd, rfl⟩ := advance_step ht h
    cases hp
    exact .inr ⟨_, _, _, .giveUp id e, hd, rfl⟩
  | waiting id limit =>
    rw [CallStage.routine] at ht
    obtain ⟨answer, m₁, hp, hd, rfl⟩ := advance_step ht h
    simp only [Machine.perform, Machine.awaitReply, Registry.collect?] at hp
    cases hg : m.registry.settled.get? id with
    | some reply =>
      simp only [hg, Option.map_some] at hp
      cases hp
      exact .inr ⟨_, _, _, .take id limit reply hg, hd, rfl⟩
    | none =>
      simp only [hg, Option.map_none] at hp
      split at hp
      · rename_i ho
        cases hp
        exact .inr ⟨_, _, _, .tire id limit hg ho, hd, rfl⟩
      · cases hp
  | expiring id =>
    rw [CallStage.routine] at ht
    obtain ⟨answer, m₁, hp, hd, rfl⟩ := advance_step ht h
    simp only [Machine.perform, Option.some.injEq, Prod.mk.injEq] at hp
    obtain ⟨ha, rfl⟩ := hp
    by_cases hm : id ∈ m.registry.pending
    · have hexp : (m.registry.expire id).2 = true := by rw [Registry.expire, if_pos hm]
      obtain rfl := ha.symm.trans hexp
      exact .inr ⟨_, _, _, .expire id hm, hd, rfl⟩
    · have hexp : (m.registry.expire id).2 = false := by rw [Registry.expire, if_neg hm]
      obtain rfl := ha.symm.trans hexp
      exact .inr ⟨_, _, _, .outrun id hm, hd, rfl⟩
  | collecting id =>
    rw [CallStage.routine] at ht
    obtain ⟨answer, m₁, hp, hd, rfl⟩ := advance_step ht h
    simp only [Machine.perform, Machine.collect, Registry.collect?] at hp
    cases hg : m.registry.settled.get? id with
    | some reply =>
      simp only [hg, Option.map_some] at hp
      cases hp
      exact .inr ⟨_, _, _, .collect id reply hg, hd, rfl⟩
    | none =>
      simp only [hg, Option.map_none] at hp
      cases hp
      exact .inr ⟨_, _, _, .lack id hg, hd, rfl⟩
  | ended result => exact .inl ⟨result, rfl⟩

def Duty.result? : Duty → Option Result
  | call _ (.ended result) => some result
  | ended result => some result
  | _ => none

theorem advance_done {result : Result} (ht : m.tasks.get? t = some (.done (.finish result)))
    (h : m.advance t = some m') :
    m.deed? t = none ∧ m' = { m with tasks := m.tasks.erase t, results := m.results.insert t result } := by
  rw [Machine.advance, ht] at h
  rw [Machine.deed?, ht]
  exact ⟨rfl, (Option.some.inj h).symm⟩

/-- All that a task can do when it takes a step: it ends, it begins anew, or it goes to its next duty. -/
theorem advance_duty {d : Duty} (ht : m.tasks.get? t = some d.routine) (h : m.advance t = some m') :
    (∃ result, d.result? = some result ∧ m.deed? t = none ∧
      m' = { m with tasks := m.tasks.erase t, results := m.results.insert t result }) ∨
    (∃ isWriter, d = .resuming isWriter ∧ m.deed? t = none ∧
      m' = { m with tasks := m.tasks.insert t (Duty.anew isWriter).routine }) ∨
    ∃ deed d' m₁, Duty.Step m t d deed d' m₁ ∧ m.deed? t = some deed ∧
      m' = { m₁ with tasks := m₁.tasks.insert t d'.routine } := by
  cases d with
  | call o s =>
    rw [Duty.routine] at ht
    obtain ⟨result, rfl⟩ | ⟨deed, s', m₁, hs, hd, rfl⟩ := advance_call ht h
    · rw [CallStage.routine] at ht
      exact .inl ⟨result, rfl, advance_done ht h⟩
    · refine .inr (.inr ⟨deed, .call o s', m₁, .call hs, hd, ?_⟩)
      rw [Duty.routine]
  | notifying method params =>
    rw [Duty.routine] at ht
    obtain ⟨answer, m₁, hp, hd, rfl⟩ := advance_step ht h
    simp only [Machine.perform, Outbox.send] at hp
    split at hp
    · cases hp
    · by_cases hstop : m.outbox.isStopped = true
      · rw [if_pos hstop] at hp
        cases hp
        exact .inr (.inr ⟨_, _, _, .miss method params hstop, hd, rfl⟩)
      · rw [if_neg hstop] at hp
        cases hp
        exact .inr (.inr ⟨_, _, _, .hand method params (Bool.eq_false_iff.mpr hstop), hd, rfl⟩)
  | notified ticket =>
    rw [Duty.routine] at ht
    obtain ⟨answer, m₁, hp, hd, rfl⟩ := advance_step ht h
    simp only [Machine.perform, Outbox.collect?, Option.map_map] at hp
    obtain ⟨receipt, hr, he⟩ := Option.map_eq_some_iff.mp hp
    cases he
    exact .inr (.inr ⟨_, _, _, .hear ticket receipt hr, hd, rfl⟩)
  | cancelling id reason =>
    rw [Duty.routine] at ht
    obtain ⟨answer, m₁, hp, hd, rfl⟩ := advance_step ht h
    cases hp
    exact .inr (.inr ⟨_, _, _, .cancel id reason, hd, rfl⟩)
  | shutting =>
    rw [Duty.routine] at ht
    obtain ⟨answer, m₁, hp, hd, rfl⟩ := advance_step ht h
    simp only [Machine.perform] at hp
    split at hp
    · cases hp
    · cases hp
      exact .inr (.inr ⟨_, _, _, .shut, hd, rfl⟩)
  | idle =>
    rw [Duty.routine] at ht
    obtain ⟨answer, m₁, hp, hd, rfl⟩ := advance_step ht h
    simp only [Machine.perform, Outbox.take?] at hp
    split at hp
    · rename_i errand errands he
      cases hp
      cases errand with
      | send frame ticket => exact .inr (.inr ⟨_, _, _, .pick frame ticket errands he, hd, rfl⟩)
      | close => exact .inr (.inr ⟨_, _, _, .pickClose errands he, hd, rfl⟩)
    · cases hp
  | holding frame ticket =>
    rw [Duty.routine] at ht
    obtain ⟨answer, m₁, hp, hd, rfl⟩ := advance_step ht h
    cases hp
    exact .inr (.inr ⟨_, _, _, .write frame ticket, hd, rfl⟩)
  | telling ticket result =>
    rw [Duty.routine] at ht
    obtain ⟨answer, m₁, hp, hd, rfl⟩ := advance_step ht h
    cases hp
    exact .inr (.inr ⟨_, _, _, .tell ticket result, hd, rfl⟩)
  | closingOutput =>
    rw [Duty.routine] at ht
    obtain ⟨answer, m₁, hp, hd, rfl⟩ := advance_step ht h
    cases hp
    exact .inr (.inr ⟨_, _, _, .closeOutput, hd, rfl⟩)
  | stopping =>
    rw [Duty.routine] at ht
    obtain ⟨answer, m₁, hp, hd, rfl⟩ := advance_step ht h
    cases hp
    exact .inr (.inr ⟨_, _, _, .stop, hd, rfl⟩)
  | listening =>
    rw [Duty.routine] at ht
    obtain ⟨answer, m₁, hp, hd, rfl⟩ := advance_step ht h
    obtain ⟨⟨event, inlet⟩, hn, he⟩ := Option.map_eq_some_iff.mp hp
    cases he
    exact .inr (.inr ⟨_, _, _, .read _ inlet hn, hd, rfl⟩)
  | delivering id reply =>
    rw [Duty.routine] at ht
    obtain ⟨answer, m₁, hp, hd, rfl⟩ := advance_step ht h
    cases hp
    exact .inr (.inr ⟨_, _, _, .deliver id reply, hd, rfl⟩)
  | forwarding inbound =>
    rw [Duty.routine] at ht
    obtain ⟨answer, m₁, hp, hd, rfl⟩ := advance_step ht h
    cases hp
    exact .inr (.inr ⟨_, _, _, .forward inbound, hd, rfl⟩)
  | failing reason isWriter =>
    rw [Duty.routine] at ht
    obtain ⟨answer, m₁, hp, hd, rfl⟩ := advance_step ht h
    cases hp
    exact .inr (.inr ⟨_, _, _, .fail reason isWriter, hd, rfl⟩)
  | terminating isWriter =>
    rw [Duty.routine] at ht
    obtain ⟨answer, m₁, hp, hd, rfl⟩ := advance_step ht h
    cases hp
    exact .inr (.inr ⟨_, _, _, .terminate isWriter, hd, rfl⟩)
  | resuming isWriter =>
    rw [Duty.routine] at ht
    rw [Machine.advance, ht] at h
    obtain rfl := Option.some.inj h
    refine .inr (.inl ⟨isWriter, rfl, ?_, ?_⟩)
    · rw [Machine.deed?, ht]
    · rw [← Duty.routine_anew]
  | ended result =>
    rw [Duty.routine] at ht
    exact .inl ⟨result, rfl, advance_done ht h⟩

end

/-! ## What steps have in common -/

def Duty.post? : Duty → Option TaskId
  | idle => some 0
  | holding _ _ => some 0
  | telling _ _ => some 0
  | closingOutput => some 0
  | stopping => some 0
  | listening => some 1
  | delivering _ _ => some 1
  | forwarding _ => some 1
  | failing _ isWriter => if isWriter then some 0 else none
  | terminating isWriter => if isWriter then some 0 else none
  | resuming isWriter => if isWriter then some 0 else some 1
  | _ => none

def Duty.order? : Duty → Option Order
  | call o _ => some o
  | _ => none

section

variable {m m₁ : Machine} {t p : TaskId} {d d' : Duty} {deed : Deed}

theorem Duty.Step.result?_eq_none (hs : Step m t d deed d' m₁) : d.result? = none := by
  cases hs with
  | call h => cases h <;> rfl
  | _ => rfl

theorem Duty.Step.tasks_eq (hs : Step m t d deed d' m₁) :
    m₁.tasks = m.tasks ∧ m₁.results = m.results ∧ m₁.nextTask = m.nextTask := by
  cases hs with
  | call h => cases h <;> exact ⟨rfl, rfl, rfl⟩
  | _ => exact ⟨rfl, rfl, rfl⟩

theorem Duty.Step.post (hs : Step m t d deed d' m₁) (hp : d'.post? = some p) : d.post? = some p := by
  cases hs with
  | call h => cases hp
  | tell ticket result => cases result <;> exact hp
  | read event inlet h =>
    cases event with
    | frame v =>
      rw [onEvent] at hp
      cases hr : Route.ofFrame v
      all_goals
        rw [hr] at hp
        exact hp
    | malformed flaw => exact hp
    | ended => cases hp
    | fault cut => cases hp
  | terminate isWriter => cases isWriter <;> exact hp
  | _ => first | exact hp | cases hp

theorem Duty.Step.writing (hs : Step m t d deed d' m₁) (hd : d.post? = some 0) :
    d'.post? = some 0 ∨ (d' = .ended nothing ∧ m₁.outbox.isStopped = true) := by
  cases hs with
  | stop => exact .inr ⟨rfl, rfl⟩
  | tell ticket result => cases result <;> exact .inl rfl
  | terminate isWriter =>
    cases isWriter with
    | true => exact .inl rfl
    | false => cases hd
  | deliver => cases hd
  | _ => first | exact .inl hd | exact .inl rfl | cases hd

theorem Duty.Step.stopped (hs : Step m t d deed d' m₁)
    (h : m.outbox.isStopped = true → m.outbox.errands = []) :
    m₁.outbox.isStopped = true → m₁.outbox.errands = [] := by
  cases hs with
  | call h' =>
    cases h' with
    | hand id limit hstop => exact fun hs => absurd (hstop.symm.trans hs) Bool.false_ne_true
    | _ => exact h
  | hand method params hstop => exact fun hs => absurd (hstop.symm.trans hs) Bool.false_ne_true
  | shut =>
    intro hs
    by_cases hstop : m.outbox.isStopped = true
    · simp only [Outbox.close, if_pos hstop]
      exact h hstop
    · simp only [Outbox.close, if_neg hstop] at hs
      exact absurd hs hstop
  | pick frame ticket errands he =>
    intro hs
    rw [h hs] at he
    cases he
  | pickClose errands he =>
    intro hs
    rw [h hs] at he
    cases he
  | stop => exact fun _ => rfl
  | _ => exact h

theorem Duty.Step.isStopped (hs : Step m t d deed d' m₁) (h : m.outbox.isStopped = true) :
    m₁.outbox.isStopped = true := by
  cases hs with
  | call h' =>
    cases h' with
    | hand id limit hstop => exact absurd (hstop.symm.trans h) Bool.false_ne_true
    | _ => exact h
  | shut =>
    rw [Outbox.close, if_pos h]
    exact h
  | stop => rfl
  | _ => exact h

theorem Duty.Step.receipts (hs : Step m t d deed d' m₁) (hd : d.post? ≠ some 0) {k : Nat}
    (hk : m.outbox.receipts.get? k = none) : m₁.outbox.receipts.get? k = none := by
  have hheard : ∀ ticket, (m.outbox.receipts.erase ticket).get? k = none := by
    intro ticket
    rw [Table.get?_erase, hk]
    exact ite_self none
  cases hs with
  | call hs =>
    cases hs with
    | hear id limit ticket receipt hr => exact hheard ticket
    | _ => exact hk
  | hear ticket receipt hr => exact hheard ticket
  | shut =>
    rw [Outbox.close]
    split
    · exact hk
    · exact hk
  | tell ticket result => exact absurd rfl hd
  | stop => exact absurd rfl hd
  | _ => exact hk

theorem Duty.Step.order?_eq (hs : Step m t d deed d' m₁) : d'.order? = d.order? := by
  cases hs with
  | tell ticket result => cases result <;> rfl
  | read event inlet h =>
    cases event with
    | frame v =>
      rw [onEvent]
      cases Route.ofFrame v <;> rfl
    | _ => rfl
  | terminate isWriter => cases isWriter <;> rfl
  | _ => rfl

theorem Duty.eq_call {o : Order} (hd : d.order? = some o) : ∃ s, d = .call o s := by
  cases d with
  | call o' s =>
    cases hd
    exact ⟨s, rfl⟩
  | _ => cases hd

theorem Duty.Step.of_call {o : Order} {s' : CallStage} (hs : Step m t d deed (.call o s') m₁) :
    ∃ s, d = .call o s ∧ CallStage.Step o m t s deed s' m₁ := by
  obtain ⟨s, rfl⟩ := Duty.eq_call hs.order?_eq.symm
  cases hs with
  | call hs => exact ⟨s, rfl, hs⟩

end

end Liaison
