import Liaison.Proofs.Session.Calls

/-!
# Every call is settled once

Any number of calls are made at the same time, responses come in any order, again and again or for nobody,
callers run out of time, writing fails, and the session ends. Every call has its own id, returns what settled
that id first, and none waits for what cannot come any longer.
-/

namespace Liaison

/-! ## Waiting -/

def Duty.IsBlocked (m : Machine) : Duty → Prop
  | call _ (.handing _ _) => m.outbox.isFull = true
  | call _ (.sent _ _ ticket) => m.outbox.receipts.get? ticket = none
  | call _ (.waiting id limit) => m.registry.settled.get? id = none ∧ m.isOver limit = false
  | notifying _ _ => m.outbox.isFull = true
  | notified ticket => m.outbox.receipts.get? ticket = none
  | shutting => m.outbox.isFull = true
  | idle => m.outbox.errands = []
  | listening => m.inlet.next? = none
  | _ => False

section

variable {m : Machine} {t : TaskId} {d : Duty}

theorem perform_eq_none {action : Action} {next : action.Answer → Routine Next}
    (ht : m.tasks.get? t = some (.step action next)) (h : m.advance t = none) : m.perform t action = none := by
  rw [Machine.advance, ht] at h
  exact Option.map_eq_none_iff.mp h

theorem isBlocked_of_call {o : Order} {s : CallStage} (ht : m.tasks.get? t = some (s.routine o))
    (h : m.advance t = none) : (Duty.call o s).IsBlocked m := by
  cases s with
  | ended result =>
    rw [CallStage.routine] at ht
    rw [Machine.advance, ht] at h
    cases h
  | handing id limit =>
    rw [CallStage.routine] at ht
    have hp := perform_eq_none ht h
    simp only [Machine.perform] at hp
    split at hp
    · assumption
    · cases hp
  | sent id limit ticket =>
    rw [CallStage.routine] at ht
    have hp := perform_eq_none ht h
    simp only [Machine.perform, Outbox.collect?, Option.map_eq_none_iff] at hp
    exact hp
  | waiting id limit =>
    rw [CallStage.routine] at ht
    have hp := perform_eq_none ht h
    simp only [Machine.perform, Machine.awaitReply, Registry.collect?] at hp
    cases hg : m.registry.settled.get? id with
    | some reply =>
      rw [hg] at hp
      cases hp
    | none =>
      rw [hg, Option.map_none] at hp
      by_cases ho : m.isOver limit = true
      · rw [if_pos ho] at hp
        cases hp
      · exact ⟨hg, Bool.eq_false_iff.mpr ho⟩
  | _ =>
    rw [CallStage.routine] at ht
    cases perform_eq_none ht h

theorem isBlocked_of_advance (ht : m.tasks.get? t = some d.routine) (h : m.advance t = none) : d.IsBlocked m := by
  cases d with
  | call o s =>
    rw [Duty.routine] at ht
    exact isBlocked_of_call ht h
  | notifying method params =>
    rw [Duty.routine] at ht
    have hp := perform_eq_none ht h
    simp only [Machine.perform] at hp
    split at hp
    · assumption
    · cases hp
  | notified ticket =>
    rw [Duty.routine] at ht
    have hp := perform_eq_none ht h
    simp only [Machine.perform, Outbox.collect?, Option.map_eq_none_iff] at hp
    exact hp
  | shutting =>
    rw [Duty.routine] at ht
    have hp := perform_eq_none ht h
    simp only [Machine.perform] at hp
    split at hp
    · assumption
    · cases hp
  | idle =>
    rw [Duty.routine] at ht
    have hp := perform_eq_none ht h
    simp only [Machine.perform, Outbox.take?] at hp
    split at hp
    · cases hp
    · assumption
  | listening =>
    rw [Duty.routine] at ht
    have hp := perform_eq_none ht h
    exact Option.map_eq_none_iff.mp hp
  | resuming isWriter =>
    rw [Duty.routine] at ht
    rw [Machine.advance, ht] at h
    cases h
  | ended result =>
    rw [Duty.routine] at ht
    rw [Machine.advance, ht] at h
    cases h
  | _ =>
    rw [Duty.routine] at ht
    cases perform_eq_none ht h

end

/-! ## Rest -/

/-- Tasks take steps, one after another, if they are able to. -/
def Machine.walk? (m : Machine) : List TaskId → Option Machine
  | [] => some m
  | t :: tasks => (m.advance t).bind fun m => m.walk? tasks

namespace Story.Sound

variable {x : Story} {duties : Duties} {t : TaskId} {o : Order}

theorem errands_eq_nil (h : x.Sound duties) (hrest : ∀ t, x.machine.advance t = none) :
    x.machine.outbox.errands = [] ∧ Duty.putBack (duties 0) x.machine.outbox = x.machine.outbox := by
  rcases h.roster.writer with ⟨d, hd, hp⟩ | ⟨hd, hstop⟩
  · have hdoes := h.roster.tasks 0
    rw [hd] at hdoes
    rcases hdoes with ⟨ht, -⟩ | ⟨-, result, hr, -⟩
    · have hblocked := isBlocked_of_advance ht (hrest 0)
      rw [hd]
      cases d with
      | idle => exact ⟨hblocked, rfl⟩
      | call o s => cases hp
      | notifying method params => cases hp
      | notified ticket => cases hp
      | shutting => cases hp
      | listening => cases hp
      | _ => exact hblocked.elim
    · cases d with
      | call o s => cases hp
      | ended r => cases hp
      | _ => cases hr
  · rw [hd]
    exact ⟨h.stopped hstop, rfl⟩

/-- When nobody can take a step, a call that has not returned waits for a response, and it has time. -/
theorem rest (h : x.Sound duties) (hrest : ∀ t, x.machine.advance t = none) (hm : (t, o) ∈ x.calls)
    (hr : x.machine.results.get? t = none) :
    ∃ id, (t, id) ∈ numbers x.history ∧ id ∈ x.machine.registry.pending ∧
      x.machine.isOver (x.machine.limit? t) = false := by
  obtain ⟨herrands, hhand⟩ := h.errands_eq_nil hrest
  obtain ⟨d, hd, ho⟩ := Option.bind_eq_some_iff.mp ((h.roster.listed t o).mp hm)
  obtain ⟨s, rfl⟩ := Duty.eq_call ho
  have hdoes := h.roster.tasks t
  rw [hd] at hdoes
  rcases hdoes with ⟨ht, -⟩ | ⟨-, result, -, hres⟩
  · have hblocked := isBlocked_of_advance ht (hrest t)
    have hk := h.known t o s hd
    have hfull : ¬ x.machine.outbox.isFull = true := by
      simp [Outbox.isFull, herrands, Outbox.capacity]
    cases s with
    | handing id limit => exact absurd hblocked hfull
    | sent id limit ticket =>
      rcases h.mail.mailed t o id limit ticket hd with ⟨hw, -⟩ | hf
      · rw [hhand, Outbox.waiting?, herrands] at hw
        exact absurd rfl hw
      · rw [hhand, show x.machine.outbox.receipts.get? ticket = none from hblocked] at hf
        cases hf
    | waiting id limit =>
      obtain ⟨hid, hh, -⟩ := hk
      obtain ⟨hnone, hover⟩ := hblocked
      refine ⟨id, hid, ?_, ?_⟩
      · rcases hh with hw | ⟨s, reply, -, -, hg⟩
        · exact (h.tracks.pending id).mpr hw
        · rw [hnone] at hg
          cases hg
      · rw [Duty.routine, CallStage.routine] at ht
        rw [Machine.limit?, ht]
        exact hover
    | _ => exact hblocked.elim
  · rw [hr] at hres
    cases hres

/-- The tasks come to rest after so many steps at most as there is work left. -/
theorem length_le_work (h : x.Sound duties) (hc : x.calls.length < Route.idBound) {tasks : List TaskId} {m : Machine}
    (hw : x.machine.walk? tasks = some m) : tasks.length ≤ x.machine.work duties := by
  induction tasks generalizing x duties with
  | nil => exact Nat.zero_le _
  | cons t tasks ih =>
    rw [Machine.walk?] at hw
    obtain ⟨m', ha, hw'⟩ := Option.bind_eq_some_iff.mp hw
    obtain ⟨duties', h', rfl, hlt⟩ := h.advance hc ha
    have hle := ih h' hc hw'
    rw [List.length_cons]
    omega

/-! ## Results -/

theorem verdict_of_result (h : x.Sound duties) (hm : (t, o) ∈ x.calls) {result : Result}
    (hr : x.machine.results.get? t = some result) :
    ∃ id, (t, id) ∈ numbers x.history ∧ id ∉ x.machine.registry.pending ∧ verdict? o id x.history = some result := by
  obtain ⟨d, hd, ho⟩ := Option.bind_eq_some_iff.mp ((h.roster.listed t o).mp hm)
  obtain ⟨s, rfl⟩ := Duty.eq_call ho
  have hdoes := h.roster.tasks t
  rw [hd] at hdoes
  rcases hdoes with ⟨-, hnone⟩ | ⟨-, result', hover, hres⟩
  · rw [hr] at hnone
    cases hnone
  · obtain rfl := Option.some.inj (hres.symm.trans hr)
    cases s with
    | ended r =>
      obtain rfl := Option.some.inj hover
      obtain ⟨id, hid, hv⟩ := h.known t o _ hd
      refine ⟨id, hid, ?_, hv⟩
      -- there is no verdict on a call that is pending
      intro hp
      rw [verdict?, (h.tracks.pending id).mp hp] at hv
      cases hv
    | _ => cases hover

theorem fulfillments_prefix (h : x.Sound duties) :
    fulfillments x.history <+: responses x.history ∧
      (responses x.history).length ≤ (fulfillments x.history).length + 1 := by
  have hd := h.delivered
  refine ⟨⟨_, hd.symm⟩, ?_⟩
  rw [hd, List.length_append]
  have hone : (Duty.inHand (duties 1)).length ≤ 1 := by
    unfold Duty.inHand
    split <;> simp
  omega

end Story.Sound

/-! ## Calls -/

structure Story.Faithful (x : Story) : Prop where
  distinct : ((numbers x.history).map Prod.fst).Nodup ∧ ((numbers x.history).map Prod.snd).Nodup
  bounded : ∀ p ∈ numbers x.history, p.2 < Route.idBound
  /-- What is written is the request of a call, and its id is registered before. -/
  registered : ∀ before d, before ++ [d] <+: x.history → ∀ id result, d.write? = some (id, result) →
    (∃ e ∈ before, e.registers id = true) ∧
      ∃ t order, (t, order) ∈ x.calls ∧ (t, id) ∈ numbers before ∧ d.action = .write (order.frame id)
  once : ((writes x.history).map Prod.fst).Nodup
  refused : ∀ t id e, ⟨t, .register id, .error e⟩ ∈ x.history → id ∉ (writes x.history).map Prod.fst
  delivered : fulfillments x.history <+: responses x.history ∧
    (responses x.history).length ≤ (fulfillments x.history).length + 1
  /-- A call returns its verdict, and then its id is not pending. -/
  returned : ∀ t order result, (t, order) ∈ x.calls → x.machine.results.get? t = some result →
    ∃ id, (t, id) ∈ numbers x.history ∧ id ∉ x.machine.registry.pending ∧
      verdict? order id x.history = some result
  finite : ∃ bound, ∀ tasks m, x.machine.walk? tasks = some m → tasks.length ≤ bound
  patient : (∀ t, x.machine.advance t = none) → ∀ t order, (t, order) ∈ x.calls →
    x.machine.results.get? t = none → ∃ id, (t, id) ∈ numbers x.history ∧ id ∈ x.machine.registry.pending ∧
      x.machine.isOver (x.machine.limit? t) = false

theorem Story.Sound.faithful {x : Story} {duties : Duties} (h : x.Sound duties)
    (hc : x.calls.length < Route.idBound) : x.Faithful where
  distinct := ⟨h.numbered.takers, h.numbered.ids⟩
  bounded := fun _ hp => h.lt_idBound hc hp
  registered := h.orderly.written
  once := h.orderly.once
  refused := fun _ id _ hm => (h.orderly.refused _ hm id rfl rfl).2
  delivered := h.fulfillments_prefix
  returned := fun _ _ _ hm hr => h.verdict_of_result hm hr
  finite := ⟨_, fun _ _ hw => h.length_le_work hc hw⟩
  patient := fun hrest _ _ hm hr => h.rest hrest hm hr

/-- Whatever happens to a session, in whatever order, as long as there are ids: its calls get what settled them
first, and nothing else. -/
theorem calls_return_first_settlement (o : ClientOptions) (files : FileTree) (state : SessionState)
    (happenings : List Happening)
    (hc : (Story.run (.start o files state) happenings).calls.length < 0x10000000000000000) :
    (Story.run (.start o files state) happenings).Faithful := by
  have hbound : (0x10000000000000000 : Nat) = Route.idBound := by decide
  rw [hbound] at hc
  obtain ⟨duties, h⟩ := Story.sound_run o files state hc
  exact h.faithful hc

/-- Two calls are written, and a third one is about to be. Responses come for nobody, for the second call and,
twice, for the first one; then the session is closed. -/
def crossing : List Happening :=
  let steps (n : Nat) (t : TaskId) : List Happening := List.replicate n (.step t)
  let response (id : Nat) : Happening :=
    .receive (Frame.write (Message.reply (.ofNat id) (.ofNat (100 * id))).toJson)
  List.flatten [
    [.call ⟨"first", none, none⟩, .call ⟨"second", none, some 5⟩, .call ⟨"third", none, none⟩],
    steps 4 2, steps 4 3, steps 3 4, steps 8 0, steps 1 2, steps 1 3,
    [response 7, response 2, response 1, response 1],
    steps 12 1, [.close "over"], steps 3 5, steps 2 2, steps 2 3]

theorem calls_return_first_settlement_crossing :
    let x := Story.run (.start ⟨"rust", "rust", [], none, 1, 1, .null⟩ ⟨[], []⟩ .starting) crossing
    x.calls.length < 0x10000000000000000 ∧ ∃ id result, verdict? ⟨"first", none, none⟩ id x.history = some result ∧
      result.map Finding.toJson = .ok (.ofNat 100) ∧ id ∉ x.machine.registry.pending := by
  have hc : (Story.run (.start ⟨"rust", "rust", [], none, 1, 1, .null⟩ ⟨[], []⟩ .starting) crossing).calls.length <
      0x10000000000000000 := by decide +kernel
  have hm : (2, ⟨"first", none, none⟩) ∈
      (Story.run (.start ⟨"rust", "rust", [], none, 1, 1, .null⟩ ⟨[], []⟩ .starting) crossing).calls := by
    decide +kernel
  have hr : ((Story.run (.start ⟨"rust", "rust", [], none, 1, 1, .null⟩ ⟨[], []⟩ .starting)
      crossing).machine.results.get? 2).map (Except.map Finding.toJson) = some (.ok (.ofNat 100)) := by decide +kernel
  obtain ⟨result, hresult, hanswer⟩ := Option.map_eq_some_iff.mp hr
  obtain ⟨id, -, hpending, hv⟩ :=
    (calls_return_first_settlement _ _ _ crossing hc).returned 2 _ result hm hresult
  exact ⟨hc, id, result, hv, hanswer, hpending⟩

end Liaison
