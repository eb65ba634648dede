import Liaison.Proofs.Frame.Exhaustion
import Liaison.Proofs.Session.Roster
import Mathlib.Algebra.BigOperators.Group.Finset.Basic

/-!
# Work

How much is left to do for the tasks of a session, for its writer and for its reader. Every step makes it
less, so that the tasks come to rest by themselves when nothing happens to them from outside.
-/

namespace Liaison

/-! ## Weights -/

def CallStage.weight : CallStage → Nat
  | numbering => 15
  | timing _ => 14
  | registering _ _ => 13
  | handing _ _ => 12
  | sent _ _ _ => 5
  | waiting _ _ => 4
  | expiring _ => 3
  | collecting _ => 2
  | givingUp _ _ => 2
  | ended _ => 1

def Duty.weight : Duty → Nat
  | call _ s => s.weight
  | notifying _ _ => 9
  | notified _ => 2
  | cancelling _ _ => 2
  | shutting => 8
  | idle => 2
  | holding _ _ => 7
  | telling _ _ => 6
  | closingOutput => 3
  | stopping => 2
  | listening => 6
  | delivering _ _ => 8
  | forwarding _ => 8
  | failing _ _ => 5
  | terminating _ => 4
  | resuming isWriter => if isWriter then 3 else 7
  | ended _ => 1

def Machine.backlog (m : Machine) : Nat :=
  6 * m.outbox.errands.length + 3 * m.inlet.unread.length

namespace Duty

/-- What is read is taken from what has come; the end of the stream is read once. -/
theorem weight_onEvent {inlet inlet' : Inlet} {event : Frame.Event} (h : inlet.next? = some (event, inlet')) :
    (onEvent event).weight + 3 * inlet'.unread.length < 6 + 3 * inlet.unread.length := by
  obtain ⟨⟨e, rest⟩, hn, he⟩ := Option.map_eq_some_iff.mp h
  obtain ⟨rfl, rfl⟩ := Prod.mk.inj he
  change (onEvent e).weight + 3 * rest.length < _
  rw [Frame.next?] at hn
  split at hn
  · cases hn
  · have hr := Option.some.inj hn
    have hle : rest.length ≤ inlet.unread.length := by
      have hle := (Frame.read_suffix inlet.unread).length_le
      rwa [hr] at hle
    have hlt : e.isLast = false → rest.length < inlet.unread.length := by
      intro hlast
      have hless : (Frame.read inlet.unread).2.length < inlet.unread.length :=
        Frame.length_read (by rw [hr]; exact hlast)
      rwa [hr] at hless
    cases e with
    | frame v =>
      have hless := hlt rfl
      have hweight : (onEvent (.frame v)).weight ≤ 8 := by
        rw [onEvent]
        cases Route.ofFrame v <;> simp [onRoute, weight]
      omega
    | malformed flaw =>
      have hless := hlt rfl
      simp only [onEvent, weight]
      omega
    | ended =>
      simp only [onEvent, weight]
      omega
    | fault cut =>
      simp only [onEvent, weight]
      omega

variable {m m₁ : Machine} {t : TaskId} {d d' : Duty} {deed : Deed}

theorem Step.weight_lt (hs : Step m t d deed d' m₁) :
    d'.weight + m₁.backlog < d.weight + m.backlog := by
  cases hs with
  | call hs =>
    cases hs with
    | hear id limit ticket receipt hr =>
      cases receipt <;> simp [Duty.weight, CallStage.told, CallStage.weight, Machine.backlog]
    | hand id limit hstop =>
      simp only [Duty.weight, CallStage.weight, Machine.backlog, List.length_append, List.length_singleton]
      omega
    | _ =>
      simp only [Duty.weight, CallStage.weight, Machine.backlog]
      omega
  | hand method params hstop =>
    simp only [Duty.weight, Machine.backlog, List.length_append, List.length_singleton]
    omega
  | shut =>
    simp only [Duty.weight, Machine.backlog, Outbox.close]
    split
    · omega
    · simp only [List.length_append, List.length_singleton]
      omega
  | pick frame ticket errands he =>
    simp only [Duty.weight, Machine.backlog, he, List.length_cons]
    omega
  | pickClose errands he =>
    simp only [Duty.weight, Machine.backlog, he, List.length_cons]
    omega
  | tell ticket result => cases result <;> simp [Duty.weight, toldBy, Machine.backlog, Outbox.receipt]
  | stop =>
    simp only [Duty.weight, Machine.backlog, Outbox.stop, List.length_nil]
    omega
  | read event inlet hn =>
    have hless := weight_onEvent hn
    simp only [Duty.weight, Machine.backlog] at hless ⊢
    omega
  | terminate isWriter => cases isWriter <;> simp [Duty.weight, onEnd, Machine.backlog]
  | deliver id reply => simp [Duty.weight, Machine.backlog]
  | forward inbound => simp [Duty.weight, Machine.backlog]
  | _ =>
    simp only [Duty.weight, Machine.backlog]
    omega

end Duty

/-! ## All tasks -/

def Machine.share (m : Machine) (duties : Duties) (t : TaskId) : Nat :=
  if (m.tasks.get? t).isSome then ((duties t).map Duty.weight).getD 0 else 0

def Machine.work (m : Machine) (duties : Duties) : Nat :=
  (∑ t ∈ Finset.range m.nextTask, m.share duties t) + m.backlog

/-- There is less to do if a task has less to do, with what it leaves to the writer and takes from the reader. -/
theorem work_lt {m m' : Machine} {duties duties' : Duties} {t : TaskId} (hn : m'.nextTask = m.nextTask)
    (ht : t < m.nextTask) (hother : ∀ u, u ≠ t → m'.share duties' u = m.share duties u)
    (hself : m'.share duties' t + m'.backlog < m.share duties t + m.backlog) :
    m'.work duties' < m.work duties := by
  have hmem : t ∈ Finset.range m.nextTask := Finset.mem_range.mpr ht
  have hrest : ∑ u ∈ (Finset.range m.nextTask).erase t, m'.share duties' u =
      ∑ u ∈ (Finset.range m.nextTask).erase t, m.share duties u :=
    Finset.sum_congr rfl fun u hu => hother u (Finset.ne_of_mem_erase hu)
  have hsum := Finset.add_sum_erase (Finset.range m.nextTask) (m.share duties) hmem
  have hsum' := Finset.add_sum_erase (Finset.range m.nextTask) (m'.share duties') hmem
  rw [Machine.work, Machine.work, hn, ← hsum, ← hsum', hrest]
  omega

section

variable {m m' : Machine} {duties : Duties} {t : TaskId} {d d' : Duty}

theorem Machine.share_eq {r : Routine Next} (ht : m.tasks.get? t = some r) (hd : duties t = some d) :
    m.share duties t = d.weight := by
  rw [share, ht, hd]
  rfl

theorem work_update_lt {r : Routine Next} (hn : m'.nextTask = m.nextTask) (ht : t < m.nextTask)
    (htasks : m'.tasks = m.tasks.insert t d'.routine) (htask : m.tasks.get? t = some r) (hd : duties t = some d)
    (hlt : d'.weight + m'.backlog < d.weight + m.backlog) :
    m'.work (Function.update duties t (some d')) < m.work duties := by
  refine work_lt hn ht ?_ ?_
  · intro u hu
    rw [Machine.share, Machine.share, htasks, Table.get?_insert, if_neg hu, Function.update_of_ne hu]
  · have hnew : m'.tasks.get? t = some d'.routine := by rw [htasks, Table.get?_insert, if_pos rfl]
    rw [Machine.share_eq hnew (Function.update_self ..), Machine.share_eq htask hd]
    exact hlt

theorem work_erase_lt {r : Routine Next} (hn : m'.nextTask = m.nextTask) (ht : t < m.nextTask)
    (htasks : m'.tasks = m.tasks.erase t) (htask : m.tasks.get? t = some r) (hd : duties t = some d)
    (hpos : 0 < d.weight) (hb : m'.backlog = m.backlog) : m'.work duties < m.work duties := by
  refine work_lt hn ht ?_ ?_
  · intro u hu
    rw [Machine.share, Machine.share, htasks, Table.get?_erase, if_neg hu]
  · have hnone : m'.share duties t = 0 := by
      rw [Machine.share, htasks, Table.get?_erase, if_pos rfl]
      rfl
    rw [hnone, Machine.share_eq htask hd, hb]
    omega

theorem Duty.weight_pos (d : Duty) : 0 < d.weight := by
  cases d with
  | call o s => cases s <;> exact Nat.succ_pos _
  | resuming isWriter => cases isWriter <;> exact Nat.succ_pos _
  | _ => exact Nat.succ_pos _

theorem Duty.weight_anew (isWriter : Bool) : (anew isWriter).weight < (resuming isWriter).weight := by
  cases isWriter <;> decide

end

end Liaison
