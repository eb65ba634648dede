import Liaison.Proofs.Session.Mail
import Liaison.Proofs.Session.Steps

/-!
# The roster

Which task is about which duty. The writer and the reader have their own tasks, and every call that was made
has one.
-/

namespace Liaison

def Machine.Does (m : Machine) (t : TaskId) : Option Duty → Prop
  | none => m.tasks.get? t = none ∧ m.results.get? t = none
  | some d =>
    (m.tasks.get? t = some d.routine ∧ m.results.get? t = none) ∨
      (m.tasks.get? t = none ∧ ∃ result, d.result? = some result ∧ m.results.get? t = some result)

structure Roster (m : Machine) (calls : List (TaskId × Order)) (duties : Duties) : Prop where
  nextTask : ∀ t, duties t = none ↔ m.nextTask ≤ t
  tasks : ∀ t, m.Does t (duties t)
  listed : ∀ t o, (t, o) ∈ calls ↔ (duties t).bind Duty.order? = some o
  callers : (calls.map Prod.fst).Nodup
  posts : ∀ t d p, duties t = some d → d.post? = some p → t = p
  writer : (∃ d, duties 0 = some d ∧ d.post? = some 0) ∨
    (duties 0 = some (.ended Duty.nothing) ∧ m.outbox.isStopped = true)

theorem Machine.Does.congr {m m' : Machine} {t : TaskId} {d : Option Duty} (h : m.Does t d)
    (htask : m'.tasks.get? t = m.tasks.get? t) (hresult : m'.results.get? t = m.results.get? t) : m'.Does t d := by
  unfold Does at h ⊢
  rw [htask, hresult]
  exact h

namespace Roster

variable {m m' : Machine} {calls : List (TaskId × Order)} {duties : Duties} {t : TaskId} {d d' : Duty}

theorem order (h : Roster m calls duties) (hd : duties t = some d) {o : Order} (ho : d.order? = some o) :
    (t, o) ∈ calls := by
  rw [h.listed, hd]
  exact ho

theorem result_eq_none (h : Roster m calls duties) (hd : duties t = some d) {r : Routine Next}
    (ht : m.tasks.get? t = some r) : m.results.get? t = none := by
  have hdoes := h.tasks t
  rw [hd] at hdoes
  rcases hdoes with ⟨-, hr⟩ | ⟨hnone, -⟩
  · exact hr
  · rw [ht] at hnone
    cases hnone

theorem routine_eq (h : Roster m calls duties) {r : Routine Next} (ht : m.tasks.get? t = some r) :
    ∃ d, duties t = some d ∧ r = d.routine := by
  have hdoes := h.tasks t
  cases hd : duties t with
  | none =>
    rw [hd] at hdoes
    rw [hdoes.1] at ht
    cases ht
  | some d =>
    rw [hd] at hdoes
    rcases hdoes with ⟨htask, -⟩ | ⟨hnone, -⟩
    · exact ⟨d, rfl, Option.some.inj (ht.symm.trans htask)⟩
    · rw [ht] at hnone
      cases hnone

theorem update (h : Roster m calls duties) (hd : duties t = some d) (ht : m.tasks.get? t = some d.routine)
    (htasks : m'.tasks = m.tasks.insert t d'.routine) (hresults : m'.results = m.results)
    (hnext : m'.nextTask = m.nextTask) (hover : d.result? = none) (ho : d'.order? = d.order?)
    (hpost : ∀ p, d'.post? = some p → d.post? = some p)
    (hwriting : d.post? = some 0 → d'.post? = some 0 ∨ (d' = .ended Duty.nothing ∧ m'.outbox.isStopped = true))
    (hstop : m.outbox.isStopped = true → m'.outbox.isStopped = true) :
    Roster m' calls (Function.update duties t (some d')) := by
  refine ⟨?_, ?_, ?_, h.callers, ?_, ?_⟩
  · intro u
    rw [hnext, ← h.nextTask u]
    by_cases e : u = t
    · rw [e, Function.update_self, hd]
      exact iff_of_false (Option.some_ne_none _) (Option.some_ne_none _)
    · rw [Function.update_of_ne e]
  · intro u
    by_cases e : u = t
    · rw [e, Function.update_self]
      refine .inl ⟨?_, ?_⟩
      · rw [htasks, Table.get?_insert, if_pos rfl]
      · rw [hresults]
        exact h.result_eq_none hd ht
    · rw [Function.update_of_ne e]
      refine (h.tasks u).congr ?_ ?_
      · rw [htasks, Table.get?_insert, if_neg e]
      · rw [hresults]
  · intro u o
    rw [h.listed]
    by_cases e : u = t
    · rw [e, Function.update_self, hd, Option.bind_some, Option.bind_some, ho]
    · rw [Function.update_of_ne e]
  · intro u e p hu hp
    by_cases e' : u = t
    · rw [e', Function.update_self] at hu
      cases hu
      exact e'.trans (h.posts t d p hd (hpost p hp))
    · rw [Function.update_of_ne e'] at hu
      exact h.posts u e p hu hp
  · by_cases e : t = 0
    · subst e
      rw [Function.update_self]
      rcases h.writer with ⟨e, he, hp⟩ | ⟨he, hs⟩
      · obtain rfl := Option.some.inj (hd.symm.trans he)
        rcases hwriting hp with hp' | ⟨rfl, hs⟩
        · exact .inl ⟨d', rfl, hp'⟩
        · exact .inr ⟨rfl, hs⟩
      · obtain rfl := Option.some.inj (hd.symm.trans he)
        cases hover
    · rw [Function.update_of_ne (Ne.symm e)]
      exact h.writer.imp_right fun hw => ⟨hw.1, hstop hw.2⟩

theorem finish (h : Roster m calls duties) (hd : duties t = some d) {result : Result} (hr : d.result? = some result)
    (htasks : m'.tasks = m.tasks.erase t) (hresults : m'.results = m.results.insert t result)
    (hnext : m'.nextTask = m.nextTask) (hout : m'.outbox = m.outbox) : Roster m' calls duties := by
  refine ⟨?_, ?_, h.listed, h.callers, h.posts, ?_⟩
  · rw [hnext]
    exact h.nextTask
  · intro u
    by_cases e : u = t
    · rw [e, hd]
      refine .inr ⟨?_, result, hr, ?_⟩
      · rw [htasks, Table.get?_erase, if_pos rfl]
      · rw [hresults, Table.get?_insert, if_pos rfl]
    · refine (h.tasks u).congr ?_ ?_
      · rw [htasks, Table.get?_erase, if_neg e]
      · rw [hresults, Table.get?_insert, if_neg e]
  · rw [hout]
    exact h.writer

theorem begin (h : Roster m calls duties) (hpost : d.post? = none)
    (htasks : m'.tasks = m.tasks.insert m.nextTask d.routine) (hresults : m'.results = m.results)
    (hnext : m'.nextTask = m.nextTask + 1) (hout : m'.outbox = m.outbox) :
    Roster m' (calls ++ (d.order?.map (m.nextTask, ·)).toList) (Function.update duties m.nextTask (some d)) := by
  have hnew : duties m.nextTask = none := (h.nextTask _).mpr (Nat.le_refl _)
  have h0 : 0 ≠ m.nextTask := by
    intro e
    rcases h.writer with ⟨w, hw, -⟩ | ⟨hw, -⟩
    all_goals
      rw [e, hnew] at hw
      cases hw
  -- the calls of the new task are the ones that are added
  have hadded : ∀ t o, (t, o) ∈ (d.order?.map (m.nextTask, ·)).toList ↔ t = m.nextTask ∧ d.order? = some o := by
    intro t o
    cases d.order? with
    | none => simp
    | some o' => simp [eq_comm]
  have hold : ∀ t o, (t, o) ∈ calls → t ≠ m.nextTask := by
    rintro t o hm rfl
    rw [h.listed, hnew] at hm
    cases hm
  refine ⟨?_, ?_, ?_, ?_, ?_, ?_⟩
  · intro u
    rw [hnext]
    by_cases e : u = m.nextTask
    · rw [e, Function.update_self]
      exact iff_of_false (Option.some_ne_none _) (Nat.not_succ_le_self _)
    · rw [Function.update_of_ne e, h.nextTask]
      exact ⟨fun hle => Nat.lt_of_le_of_ne hle (Ne.symm e), Nat.le_of_succ_le⟩
  · intro u
    by_cases e : u = m.nextTask
    · have hdoes := h.tasks u
      rw [e, hnew] at hdoes
      rw [e, Function.update_self]
      refine .inl ⟨?_, ?_⟩
      · rw [htasks, Table.get?_insert, if_pos rfl]
      · rw [hresults]
        exact hdoes.2
    · rw [Function.update_of_ne e]
      refine (h.tasks u).congr ?_ ?_
      · rw [htasks, Table.get?_insert, if_neg e]
      · rw [hresults]
  · intro u o
    rw [List.mem_append, hadded]
    by_cases e : u = m.nextTask
    · rw [e, Function.update_self]
      exact ⟨fun hm => (hm.resolve_left fun hm => hold _ _ hm rfl).2, fun ho => .inr ⟨rfl, ho⟩⟩
    · rw [Function.update_of_ne e, ← h.listed]
      exact ⟨fun hm => hm.resolve_right fun hm => e hm.1, .inl⟩
  · rw [List.map_append]
    refine List.nodup_append.mpr ⟨h.callers, ?_, ?_⟩
    · cases d.order? with
      | none => exact List.nodup_nil
      | some o => exact List.pairwise_singleton _ _
    · intro a ha b hb e
      obtain ⟨⟨t, o⟩, hm, rfl⟩ := List.mem_map.mp ha
      obtain ⟨⟨t', o'⟩, hm', rfl⟩ := List.mem_map.mp hb
      exact hold t o hm (e.trans ((hadded t' o').mp hm').1)
  · intro u e p hu hp
    by_cases e' : u = m.nextTask
    · rw [e', Function.update_self] at hu
      cases hu
      rw [hpost] at hp
      cases hp
    · rw [Function.update_of_ne e'] at hu
      exact h.posts u e p hu hp
  · rw [Function.update_of_ne h0, hout]
    exact h.writer

end Roster

end Liaison
