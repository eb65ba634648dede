import Liaison.Proofs.Session.Order
import Liaison.Proofs.Session.Work

/-!
# Calls at the same time

What holds of a session at every moment, whatever has happened to it: every task has its duty, every call is
known as far as it has come, and the registry, the mail and the writer keep to the history.
-/

namespace Liaison

structure Story.Sound (x : Story) (duties : Duties) : Prop where
  roster : Roster x.machine x.calls duties
  stopped : x.machine.outbox.isStopped = true → x.machine.outbox.errands = []
  untold : ∀ ticket result, duties 0 = some (.telling ticket result) →
    x.machine.outbox.receipts.get? ticket = none
  mail : Mail (Duty.putBack (duties 0) x.machine.outbox) x.history duties
  numbered : Numbered x.history x.machine.nextId x.calls
  tracks : x.machine.registry.Tracks x.history
  known : ∀ t o s, duties t = some (.call o s) → s.Known x.machine.registry x.history t o
  orderly : Orderly x.history x.calls
  delivered : responses x.history = fulfillments x.history ++ Duty.inHand (duties 1)

namespace Story.Sound

variable {x : Story} {duties : Duties} {t u : TaskId} {o : Order} {s : CallStage} {id : Nat}
  {d d' : Duty} {deed : Deed} {m₁ : Machine}

/-! ## Ids -/

theorem mem_numbers (h : x.Sound duties) (hd : duties t = some d) (hi : d.id? = some id) :
    (t, id) ∈ numbers x.history := by
  cases d with
  | call o s => exact (h.known t o s hd).mem_numbers hi
  | _ => cases hi

theorem lt_idBound (h : x.Sound duties) (hc : x.calls.length < Route.idBound) (hm : (t, id) ∈ numbers x.history) :
    id < Route.idBound :=
  Nat.lt_of_le_of_lt (h.numbered.le_length hm) hc

theorem id?_ne (h : x.Sound duties) (hd : duties t = some d) (hu : u ≠ t) (hm : (u, id) ∈ numbers x.history) :
    d.id? ≠ some id :=
  fun hi => hu (h.numbered.task_eq hm (h.mem_numbers hd hi))

/-- Whose frame waits under a ticket: what is written is the request of a call that waits for its receipt. -/
theorem of_write (h : x.Sound duties) (hc : x.calls.length < Route.idBound) (hd : duties t = some d)
    (hs : Duty.Step x.machine t d deed d' m₁) {result : Except String Unit} (hw : deed.write? = some (id, result)) :
    ∃ u o limit k, duties u = some (.call o (.sent id limit k)) ∧ deed.action = .write (o.frame id) ∧
      fate id x.history = .dropped := by
  cases hs with
  | call hs =>
    rw [hs.write] at hw
    cases hw
  | write frame ticket =>
    obtain rfl := h.roster.posts t _ 0 hd rfl
    have hmail := h.mail
    rw [hd] at hmail
    have hwait : Outbox.waiting? (Duty.putBack (some (.holding frame ticket)) x.machine.outbox) ticket =
        some frame := by
      simp [Duty.putBack, Outbox.waiting?]
    have hmem := Outbox.mem_of_waiting? (by rw [hwait]; exact Option.some_ne_none _)
    obtain ⟨u, hu⟩ := hmail.ticketed.owner ticket hmem
    obtain ⟨e, he, hticket⟩ := Option.bind_eq_some_iff.mp hu
    have hl := hmail.labelled u e ticket frame he hticket hwait
    obtain ⟨i, hi, heq⟩ := Option.map_eq_some_iff.mp hw
    cases heq
    cases e with
    | call o s =>
      cases s with
      | sent i limit k =>
        have hbound := h.lt_idBound hc (h.mem_numbers he rfl)
        rw [hl, requestId?_frame o hbound] at hi
        obtain rfl := Option.some.inj hi
        obtain rfl := Option.some.inj hticket
        refine ⟨u, o, limit, k, he, congrArg Action.write hl, ?_⟩
        rcases hmail.mailed u o i limit k he with ⟨-, hf⟩ | hr
        · exact hf
        · exact absurd hmem (hmail.ticketed.settled k (by rw [hr]; exact Option.some_ne_none _))
      | _ => cases hticket
    | notified k =>
      rw [hl] at hi
      cases hi
    | _ => cases hticket
  | _ => cases hw

/-! ## A step of a task -/

theorem fate_of_receipt (h : x.Sound duties) {limit : Option Nat} {k : Nat} {receipt : Receipt}
    (hd : duties t = some (.call o (.sent id limit k))) (hr : x.machine.outbox.receipts.get? k = some receipt) :
    fate id x.history = receipt := by
  have hv := Duty.get?_putBack hr h.untold
  rcases h.mail.mailed t o id limit k hd with ⟨hw, -⟩ | hf
  · exact absurd (h.mail.ticketed.waiting_of_receipt (by rw [hv]; exact Option.some_ne_none _)) hw
  · exact Option.some.inj (hf.symm.trans hv)

theorem known_step (h : x.Sound duties) (hc : x.calls.length < Route.idBound) (hd : duties t = some d)
    (hs : Duty.Step x.machine t d deed d' m₁) (hu : Function.update duties t (some d') u = some (.call o s)) :
    s.Known m₁.registry (x.history ++ [deed]) u o := by
  by_cases e : u = t
  · subst e
    rw [Function.update_self] at hu
    cases hu
    obtain ⟨s₀, rfl, hcall⟩ := hs.of_call
    refine (h.known u o s₀ hd).step hcall h.tracks h.numbered.fresh_next ?_
    rintro id limit k receipt rfl hr
    exact h.fate_of_receipt hd hr
  · rw [Function.update_of_ne e] at hu
    refine (h.known u o s hu).of_other (fun p hp => ?_) (fun i hi => hs.asks (h.id?_ne hd e hi))
      (fun i hi hh => hs.holds h.tracks ?_ (h.id?_ne hd e hi) hh) (fun i hi hne => fate_concat fun result hw => ?_)
    · rcases hs.numbers with ⟨hn, -⟩ | ⟨-, hn, -⟩
      · rw [hn] at hp
        cases hp
      · rw [hn] at hp
        cases hp
        exact Ne.symm e
    · rintro o' i' limit rfl
      exact (h.known t o' _ hd).2.1.standing
    · obtain ⟨v, o', limit, k, hv, -, -⟩ := h.of_write hc hd hs hw
      obtain rfl := h.numbered.task_eq hi (h.mem_numbers hv rfl)
      rw [hu] at hv
      cases hv
      exact hne rfl

theorem numbered_step (h : x.Sound duties) (hc : x.calls.length < Route.idBound) (hd : duties t = some d)
    (hs : Duty.Step x.machine t d deed d' m₁) : Numbered (x.history ++ [deed]) m₁.nextId x.calls := by
  rcases hs.numbers with ⟨hn, hid⟩ | ⟨⟨o, rfl⟩, hn, hid⟩
  · rw [hid]
    refine h.numbered.keep hn fun id hfree => ⟨hs.asks fun hi => hfree t (h.mem_numbers hd hi), ?_⟩
    intro result hw
    obtain ⟨u, o, limit, k, hu, -, -⟩ := h.of_write hc hd hs hw
    exact hfree u (h.mem_numbers hu rfl)
  · rw [hid]
    cases hs with
    | call hs =>
      cases hs with
      | number =>
        refine h.numbered.take rfl (h.known t o _ hd) ?_
        exact List.mem_map.mpr ⟨(t, o), h.roster.order hd rfl, rfl⟩

theorem orderly_step (h : x.Sound duties) (hc : x.calls.length < Route.idBound) (hd : duties t = some d)
    (hs : Duty.Step x.machine t d deed d' m₁) : Orderly (x.history ++ [deed]) x.calls := by
  refine h.orderly.concat ?_ ?_
  · intro id result hw
    obtain ⟨u, o, limit, k, hu, ha, hf⟩ := h.of_write hc hd hs hw
    have hk := h.known u o _ hu
    exact ⟨hk.2.standing_ne, hf, u, o, h.roster.order hu rfl, hk.1, ha⟩
  · intro id ha
    cases hs with
    | call hs =>
      cases hs with
      | register i limit r hr =>
        cases ha
        exact (h.known t _ _ hd).2
      | refuse i limit e hr =>
        cases ha
        exact (h.known t _ _ hd).2
      | _ => cases ha
    | _ => cases ha

theorem untold_step (h : x.Sound duties) (hd : duties t = some d) (hs : Duty.Step x.machine t d deed d' m₁)
    {ticket : Nat} {result : Except String Unit}
    (ht : Function.update duties t (some d') 0 = some (.telling ticket result)) :
    m₁.outbox.receipts.get? ticket = none := by
  by_cases e : t = 0
  · subst e
    rw [Function.update_self] at ht
    cases hs with
    | write frame k =>
      cases ht
      -- the frame that is written has just been waiting
      by_contra hr
      have hmail := h.mail
      rw [hd] at hmail
      exact hmail.ticketed.settled ticket hr List.mem_cons_self
    | tell k result => cases result <;> cases ht
    | read event inlet hn =>
      cases h.roster.posts 0 _ 1 hd rfl
    | terminate isWriter => cases isWriter <;> cases ht
    | _ => cases ht
  · rw [Function.update_of_ne (Ne.symm e)] at ht
    have hpost : d.post? ≠ some 0 := fun hp => e (h.roster.posts t d 0 hd hp)
    exact hs.receipts hpost (h.untold ticket result ht)

theorem step (h : x.Sound duties) (hc : x.calls.length < Route.idBound) (hd : duties t = some d)
    (ht : x.machine.tasks.get? t = some d.routine) (hs : Duty.Step x.machine t d deed d' m₁) :
    Sound ⟨{ m₁ with tasks := m₁.tasks.insert t d'.routine }, x.calls, x.history ++ [deed]⟩
      (Function.update duties t (some d')) := by
  obtain ⟨htasks, hresults, hnext⟩ := hs.tasks_eq
  have hposts : ∀ p, d.post? = some p → t = p := fun p => h.roster.posts t d p hd
  have hwriter : t = 0 → d.post? = some 0 := by
    rintro rfl
    rcases h.roster.writer with ⟨e, he, hp⟩ | ⟨he, -⟩
    · obtain rfl := Option.some.inj (hd.symm.trans he)
      exact hp
    · obtain rfl := Option.some.inj (hd.symm.trans he)
      cases hs
  have hunknown : ∀ o id limit, d = .call o (.registering id limit) → standing id x.history = .unknown := by
    rintro o id limit rfl
    exact (h.known t o _ hd).2.1.standing
  have hnumbered := h.numbered_step hc hd hs
  have hknown : ∀ u o s, Function.update duties t (some d') u = some (.call o s) →
      s.Known m₁.registry (x.history ++ [deed]) u o := fun u o s => h.known_step hc hd hs
  refine ⟨?_, hs.stopped h.stopped, fun ticket result => h.untold_step hd hs, ?_, hnumbered,
    hs.tracks h.tracks hunknown, hknown, h.orderly_step hc hd hs, hs.delivered hd hposts h.delivered⟩
  · refine h.roster.update hd ht ?_ hresults hnext hs.result?_eq_none hs.order?_eq (fun p => hs.post) hs.writing
      hs.isStopped
    change m₁.tasks.insert t d'.routine = _
    rw [htasks]
  · refine hs.mail h.mail hd hposts hwriter h.untold ?_ ?_ ?_
    · rintro o id limit rfl
      exact (h.known t o _ hd).2.2
    · intro u o id limit k hu
      exact h.lt_idBound hc (h.mem_numbers hu rfl)
    · intro u v o o' id limit limit' k k' hu hv
      exact h.numbered.task_eq (h.mem_numbers hu rfl) (h.mem_numbers hv rfl)

/-! ## Beginning and end -/

structure IsQuiet (d : Option Duty) : Prop where
  ticket : d.bind Duty.ticket? = none
  hand : ∀ o, Duty.putBack d o = o
  response : Duty.inHand d = []

theorem assign (h : x.Sound duties) {m : Machine} {calls : List (TaskId × Order)}
    (hroster : Roster m calls (Function.update duties t (some d))) (hout : m.outbox = x.machine.outbox)
    (hreg : m.registry = x.machine.registry) (hid : m.nextId = x.machine.nextId) (hcalls : ∀ p ∈ x.calls, p ∈ calls)
    (hq : IsQuiet (duties t)) (hq' : IsQuiet (some d))
    (hk : ∀ o s, d = .call o s → s.Known m.registry x.history t o) :
    Sound ⟨m, calls, x.history⟩ (Function.update duties t (some d)) := by
  have hhand : ∀ o, Duty.putBack (Function.update duties t (some d) 0) o = Duty.putBack (duties 0) o := by
    intro o
    by_cases e : t = 0
    · rw [e, Function.update_self, hq'.hand, ← e, hq.hand]
    · rw [Function.update_of_ne (Ne.symm e)]
  have hread : Duty.inHand (Function.update duties t (some d) 1) = Duty.inHand (duties 1) := by
    by_cases e : t = 1
    · rw [e, Function.update_self, hq'.response, ← e, hq.response]
    · rw [Function.update_of_ne (Ne.symm e)]
  refine ⟨hroster, ?_, ?_, ?_, ?_, ?_, ?_, h.orderly.mono hcalls, ?_⟩
  · rw [hout]
    exact h.stopped
  · intro ticket result hu
    rw [hout]
    by_cases e : t = 0
    · rw [e, Function.update_self] at hu
      rw [hu] at hq'
      -- whoever has a receipt to give would leave it in the outbox
      have hgiven := congrArg (fun o => o.receipts.get? ticket) (hq'.hand .empty)
      simp [Duty.putBack, Outbox.receipt, Outbox.empty] at hgiven
    · rw [Function.update_of_ne (Ne.symm e)] at hu
      exact h.untold ticket result hu
  · rw [hhand, hout]
    exact h.mail.update hq.ticket hq'.ticket
  · rw [hid]
    refine h.numbered.mono ?_
    intro u hu
    obtain ⟨p, hp, rfl⟩ := List.mem_map.mp hu
    exact List.mem_map.mpr ⟨p, hcalls p hp, rfl⟩
  · rw [hreg]
    exact h.tracks
  · intro u o s hu
    by_cases e : u = t
    · subst e
      rw [Function.update_self] at hu
      exact hk o s (Option.some.inj hu)
    · rw [Function.update_of_ne e] at hu
      rw [hreg]
      exact h.known u o s hu
  · rw [hread]
    exact h.delivered

theorem resume (h : x.Sound duties) {isWriter : Bool} (hd : duties t = some (.resuming isWriter))
    (ht : x.machine.tasks.get? t = some (Duty.resuming isWriter).routine) :
    Sound (x.withMachine { x.machine with tasks := x.machine.tasks.insert t (Duty.anew isWriter).routine })
      (Function.update duties t (some (.anew isWriter))) := by
  have hpost : (Duty.anew isWriter).post? = (Duty.resuming isWriter).post? := by cases isWriter <;> rfl
  refine h.assign ?_ rfl rfl rfl (fun _ hp => hp) ?_ ?_ ?_
  · refine h.roster.update hd ht rfl rfl rfl rfl ?_ ?_ ?_ id
    · cases isWriter <;> rfl
    · rw [hpost]
      exact fun _ hp => hp
    · rw [hpost]
      exact .inl
  · rw [hd]
    exact ⟨rfl, fun _ => rfl, rfl⟩
  · cases isWriter <;> exact ⟨rfl, fun _ => rfl, rfl⟩
  · intro o s he
    cases isWriter <;> cases he

theorem begin (h : x.Sound duties) (hpost : d.post? = none) (hq : IsQuiet (some d))
    (hcall : ∀ o s, d = .call o s → s = .numbering) :
    Sound ⟨x.machine.addTask d.routine, x.calls ++ (d.order?.map (x.machine.nextTask, ·)).toList, x.history⟩
      (Function.update duties x.machine.nextTask (some d)) := by
  have hnew : duties x.machine.nextTask = none := (h.roster.nextTask _).mpr (Nat.le_refl _)
  refine h.assign ?_ rfl rfl rfl (fun p hp => List.mem_append_left _ hp) ?_ hq ?_
  · exact h.roster.begin hpost rfl rfl rfl rfl
  · rw [hnew]
    exact ⟨rfl, fun _ => rfl, rfl⟩
  · intro o s hd
    obtain rfl := hcall o s hd
    intro hm
    obtain ⟨p, hp, he⟩ := List.mem_map.mp hm
    obtain ⟨⟨u, o'⟩, hu, rfl⟩ := List.mem_map.mp (h.numbered.called p hp)
    rw [h.roster.listed, he, hnew] at hu
    cases hu

theorem finish (h : x.Sound duties) (hd : duties t = some d) {result : Result} (hr : d.result? = some result) :
    Sound (x.withMachine { x.machine with
      tasks := x.machine.tasks.erase t
      results := x.machine.results.insert t result }) duties :=
  { h with roster := h.roster.finish hd hr rfl rfl rfl rfl }

theorem world (h : x.Sound duties) {m : Machine} (htasks : m.tasks = x.machine.tasks)
    (hresults : m.results = x.machine.results) (hnext : m.nextTask = x.machine.nextTask)
    (hout : m.outbox = x.machine.outbox) (hreg : m.registry = x.machine.registry)
    (hid : m.nextId = x.machine.nextId) : Sound (x.withMachine m) duties := by
  refine ⟨⟨?_, ?_, h.roster.listed, h.roster.callers, h.roster.posts, ?_⟩, ?_, ?_, ?_, ?_, ?_, ?_,
    h.orderly, h.delivered⟩
  · rw [withMachine, hnext]
    exact h.roster.nextTask
  · intro u
    exact (h.roster.tasks u).congr (by rw [withMachine, htasks]) (by rw [withMachine, hresults])
  · rw [withMachine, hout]
    exact h.roster.writer
  · rw [withMachine, hout]
    exact h.stopped
  · rw [withMachine, hout]
    exact h.untold
  · rw [withMachine, hout]
    exact h.mail
  · rw [withMachine, hid]
    exact h.numbered
  · rw [withMachine, hreg]
    exact h.tracks
  · rw [withMachine, hreg]
    exact h.known

/-! ## Whatever happens -/

theorem start (o : ClientOptions) (files : FileTree) (state : SessionState) :
    Sound (.start o files state) fun t => if t = 0 then some .idle else if t = 1 then some .listening else none := by
  have hmail : ∀ t k, Duties.tickets
      (fun t => if t = 0 then some .idle else if t = 1 then some .listening else none) t ≠ some k := by
    intro t k hk
    rw [Duties.tickets] at hk
    split at hk
    · cases hk
    · split at hk <;> cases hk
  have hcall : ∀ (t : TaskId) (o : Order) (s : CallStage),
      (if t = 0 then some Duty.idle else if t = 1 then some .listening else none) ≠ some (.call o s) := by
    intro t o s hs
    split at hs
    · cases hs
    · split at hs <;> cases hs
  refine ⟨⟨?_, ?_, ?_, List.nodup_nil, ?_, .inl ⟨.idle, rfl, rfl⟩⟩,
    fun hs => absurd hs Bool.false_ne_true, fun ticket result ht => absurd (Option.some.inj ht) Duty.noConfusion, ?_,
    ⟨rfl, fun p hp => absurd hp List.not_mem_nil, List.nodup_nil, List.nodup_nil,
      fun p hp => absurd hp List.not_mem_nil, fun _ _ => ⟨fun d hd => absurd hd List.not_mem_nil, rfl⟩⟩,
    Registry.tracks_empty, fun t o s ht => absurd ht (hcall t o s), .nil, rfl⟩
  · intro t
    rcases t with _ | _ | t
    · exact iff_of_false (Option.some_ne_none _) (Nat.not_succ_le_zero 1)
    · exact iff_of_false (Option.some_ne_none _) (Nat.not_succ_le_self 1)
    · exact iff_of_true rfl (Nat.le_add_left 2 t)
  · intro t
    rcases t with _ | _ | t
    · exact .inl ⟨congrArg some Duty.routine_writing, rfl⟩
    · exact .inl ⟨congrArg some Duty.routine_reading, rfl⟩
    · exact ⟨rfl, rfl⟩
  · intro t o
    refine ⟨fun hm => absurd hm List.not_mem_nil, ?_⟩
    intro ho
    obtain ⟨d, hd, hd'⟩ := Option.bind_eq_some_iff.mp ho
    obtain ⟨s, rfl⟩ := Duty.eq_call hd'
    exact absurd hd (hcall t o s)
  · intro t d p hd hp
    rcases t with _ | _ | t
    · cases hd
      cases hp
      rfl
    · cases hd
      cases hp
      rfl
    · cases hd
  · refine ⟨⟨fun t k hk => absurd hk (hmail t k), fun t _ k hk => absurd hk (hmail t k),
      fun k hk => absurd hk List.not_mem_nil, List.nodup_nil, fun k hk => absurd rfl hk,
      fun _ _ => List.not_mem_nil⟩, ?_, fun t o id limit k ht => absurd ht (hcall t o _)⟩
    intro t d k frame _ _ hw
    cases hw

theorem advance (h : x.Sound duties) (hc : x.calls.length < Route.idBound) {m : Machine}
    (ha : x.machine.advance t = some m) :
    ∃ duties', (x.happen (.step t)).Sound duties' ∧ (x.happen (.step t)).machine = m ∧
      m.work duties' < x.machine.work duties := by
  obtain ⟨r, ht⟩ := exists_routine ha
  obtain ⟨d, hd, rfl⟩ := h.roster.routine_eq ht
  have hlt : t < x.machine.nextTask := by
    by_contra hge
    rw [(h.roster.nextTask t).mpr (Nat.le_of_not_lt hge)] at hd
    cases hd
  rw [happen, ha, Option.getD_some]
  rcases advance_duty ht ha with ⟨result, hr, hdeed, rfl⟩ | ⟨isWriter, rfl, hdeed, rfl⟩ |
    ⟨deed, d', m₁, hs, hdeed, rfl⟩
  · rw [hdeed, Option.toList_none, List.append_nil]
    exact ⟨_, h.finish hd hr, rfl, work_erase_lt rfl hlt rfl ht hd d.weight_pos rfl⟩
  · rw [hdeed, Option.toList_none, List.append_nil]
    refine ⟨_, h.resume hd ht, rfl, work_update_lt rfl hlt rfl ht hd ?_⟩
    exact Nat.add_lt_add_right (Duty.weight_anew isWriter) _
  · rw [hdeed]
    obtain ⟨htasks, -, hnext⟩ := hs.tasks_eq
    refine ⟨_, h.step hc hd ht hs, rfl, work_update_lt hnext hlt ?_ ht hd hs.weight_lt⟩
    rw [← htasks]

theorem happen_step_of_none (ha : x.machine.advance t = none) : x.happen (.step t) = x := by
  rw [happen, ha, deed?_eq_none ha, Option.getD_none, Option.toList_none, List.append_nil]

theorem begin_other (h : x.Sound duties) (hpost : d.post? = none) (hq : IsQuiet (some d))
    (ho : d.order? = none) {r : Routine Next} (hr : r = d.routine) :
    ∃ duties', (x.withMachine (x.machine.addTask r)).Sound duties' := by
  subst hr
  have hb := h.begin hpost hq fun o s hd => by
    rw [hd] at ho
    cases ho
  rw [ho, Option.map_none, Option.toList_none, List.append_nil] at hb
  exact ⟨_, hb⟩

theorem happen (h : x.Sound duties) (hc : x.calls.length < Route.idBound) (e : Happening) :
    ∃ duties', (x.happen e).Sound duties' := by
  cases e with
  | call order =>
    have hfirst : ∀ o s, Duty.call order .numbering = .call o s → s = .numbering := by
      rintro o s hd
      cases hd
      rfl
    refine ⟨Function.update duties x.machine.nextTask (some (.call order .numbering)), ?_⟩
    rw [Story.happen, Machine.start, CallStage.routine_numbering, ← Duty.routine]
    exact h.begin rfl ⟨rfl, fun _ => rfl, rfl⟩ hfirst
  | notify method params =>
    exact h.begin_other rfl ⟨rfl, fun _ => rfl, rfl⟩ rfl (Duty.routine_notifying method params _)
  | cancel id reason => exact h.begin_other rfl ⟨rfl, fun _ => rfl, rfl⟩ rfl (Duty.routine_cancelling id reason _)
  | closeStream => exact h.begin_other rfl ⟨rfl, fun _ => rfl, rfl⟩ rfl (Duty.routine_shutting _)
  | close reason => exact h.begin_other rfl ⟨rfl, fun _ => rfl, rfl⟩ rfl (Duty.routine_ending reason)
  | step t =>
    cases ha : x.machine.advance t with
    | none =>
      rw [happen_step_of_none ha]
      exact ⟨duties, h⟩
    | some m =>
      obtain ⟨duties', h', -, -⟩ := h.advance hc ha
      exact ⟨duties', h'⟩
  | receive bytes =>
    refine ⟨duties, ?_⟩
    rw [Story.happen, Machine.receive]
    split
    · exact h
    · exact h.world rfl rfl rfl rfl rfl rfl
  | hangUp => exact ⟨duties, h.world rfl rfl rfl rfl rfl rfl⟩
  | limitOutput room fault => exact ⟨duties, h.world rfl rfl rfl rfl rfl rfl⟩
  | elapseTo moment => exact ⟨duties, h.world rfl rfl rfl rfl rfl rfl⟩

end Story.Sound

namespace Story

theorem length_calls_happen (x : Story) (e : Happening) : x.calls.length ≤ (x.happen e).calls.length := by
  cases e with
  | call order =>
    rw [happen, List.length_append]
    exact Nat.le_add_right _ _
  | _ => exact Nat.le_refl _

theorem sound_run (o : ClientOptions) (files : FileTree) (state : SessionState) {happenings : List Happening}
    (hc : (run (start o files state) happenings).calls.length < Route.idBound) :
    ∃ duties, (run (start o files state) happenings).Sound duties := by
  induction happenings using List.reverseRecOn with
  | nil => exact ⟨_, .start o files state⟩
  | append_singleton happenings e ih =>
    rw [run, List.foldl_append, List.foldl_cons, List.foldl_nil, ← run] at hc ⊢
    have hc' := Nat.lt_of_le_of_lt (length_calls_happen _ e) hc
    obtain ⟨duties, h⟩ := ih hc'
    exact h.happen hc' e

end Story

end Liaison
