import Liaison.Proofs.Session.Course
import Liaison.Proofs.Session.Discipline
import Liaison.Proofs.Session.Reach
import Mathlib.Logic.Function.Basic

/-!
# What discipline keeps

Whatever happens to a session, its tasks keep to the rules. So what is kept by every action that the rules allow,
by tasks that come and go and by tasks that are dropped, holds at any time.
-/

namespace Liaison

abbrev Conducts := TaskId → Conduct

structure Machine.Alike (m m' : Machine) : Prop where
  state : m'.state = m.state
  registry : m'.registry = m.registry
  nextId : m'.nextId = m.nextId
  callers : m'.callers = m.callers
  documents : m'.documents = m.documents
  lines : m'.lines = m.lines
  diagnostics : m'.diagnostics = m.diagnostics

structure Machine.Lost (t : TaskId) (m m' : Machine) : Prop where
  state : m'.state = m.state
  registry : m'.registry = (m.callers.filter (·.2 = t)).foldl (fun r p => r.abandon p.1) m.registry
  nextId : m'.nextId = m.nextId
  callers : m'.callers = m.callers
  documents : m'.documents = m.documents
  lines : m'.lines = m.lines.map fun p => (p.1, p.2.filter (· ≠ t))
  diagnostics : m'.diagnostics = m.diagnostics

structure Machine.Disciplined (m : Machine) (k : Conducts) : Prop where
  obeys : ∀ t r, m.tasks.get? t = some r → r.Obeys (k t) Next.Fits
  absent : ∀ t, m.tasks.get? t = none → k t = .free none
  old : ∀ t r, m.tasks.get? t = some r → t < m.nextTask

structure Course.Invariant (I : Course → Conducts → Prop) : Prop where
  alike : ∀ x k m, I x k → x.machine.Alike m → I ⟨m, x.history⟩ k
  act : ∀ x k t a answer m, I x k → (k t).Allows a → x.machine.perform t a = some (answer, m) →
    I ⟨m, x.history ++ [⟨t, a, answer⟩]⟩ (Function.update k t ((k t).after a answer))
  turn : ∀ x k t post post', I x k → k t = .free post → (post' = none ∨ post' = post) →
    I x (Function.update k t (.free post'))
  lose : ∀ x k t m, I x k → x.machine.Lost t m → I ⟨m, x.history⟩ (Function.update k t (.free none))

namespace Machine.Disciplined

variable {m m' : Machine} {k : Conducts} {t : TaskId}

theorem task_ne (hd : m.Disciplined k) {r : Routine Next} (ht : m.tasks.get? t = some r) : t ≠ m.nextTask :=
  Nat.ne_of_lt (hd.old t r ht)

theorem get?_nextTask (hd : m.Disciplined k) : m.tasks.get? m.nextTask = none := by
  cases h : m.tasks.get? m.nextTask with
  | none => rfl
  | some r => exact absurd rfl (hd.task_ne h)

theorem congr (hd : m.Disciplined k) (ht : m'.tasks = m.tasks) (hn : m'.nextTask = m.nextTask) :
    m'.Disciplined k := by
  refine ⟨?_, ?_, ?_⟩
  · rw [ht]
    exact hd.obeys
  · rw [ht]
    exact hd.absent
  · rw [ht, hn]
    exact hd.old

/-- A new task has nothing in hand, but it may have a post. -/
theorem addTask_update (hd : m.Disciplined k) {r : Routine Next} {post : Option Nat}
    (hr : r.Obeys (.free post) Next.Fits) :
    (m.addTask r).Disciplined (Function.update k m.nextTask (.free post)) := by
  refine ⟨?_, ?_, ?_⟩
  · intro u s hu
    rw [Machine.addTask, Table.get?_insert] at hu
    by_cases e : u = m.nextTask
    · rw [if_pos e] at hu
      cases hu
      rw [e, Function.update_self]
      exact hr
    · rw [if_neg e] at hu
      rw [Function.update_of_ne e]
      exact hd.obeys u s hu
  · intro u hu
    rw [Machine.addTask, Table.get?_insert] at hu
    split at hu
    · cases hu
    · rename_i e
      rw [Function.update_of_ne e]
      exact hd.absent u hu
  · intro u s hu
    rw [Machine.addTask, Table.get?_insert] at hu
    split at hu
    · rename_i e
      rw [e]
      exact Nat.lt_succ_self _
    · exact Nat.lt_succ_of_lt (hd.old u s hu)

theorem addTask (hd : m.Disciplined k) {r : Routine Next} (hr : r.Obeys (.free none) Next.Fits) :
    (m.addTask r).Disciplined k := by
  have h := hd.addTask_update hr
  rwa [← hd.absent _ hd.get?_nextTask, Function.update_eq_self] at h

theorem insert (hd : m.Disciplined k) {r s : Routine Next} {c : Conduct} (ht : m.tasks.get? t = some s)
    (hr : r.Obeys c Next.Fits) : { m with tasks := m.tasks.insert t r }.Disciplined (Function.update k t c) := by
  refine ⟨?_, ?_, ?_⟩
  · intro u r' hu
    rw [Table.get?_insert] at hu
    by_cases e : u = t
    · rw [if_pos e] at hu
      cases hu
      rw [e, Function.update_self]
      exact hr
    · rw [if_neg e] at hu
      rw [Function.update_of_ne e]
      exact hd.obeys u r' hu
  · intro u hu
    rw [Table.get?_insert] at hu
    split at hu
    · cases hu
    · rename_i e
      rw [Function.update_of_ne e]
      exact hd.absent u hu
  · intro u r' hu
    rw [Table.get?_insert] at hu
    split at hu
    · rename_i e
      rw [e]
      exact hd.old t s ht
    · exact hd.old u r' hu

theorem erase (hd : m.Disciplined k) (ht : m'.tasks = m.tasks.erase t) (hn : m'.nextTask = m.nextTask) :
    m'.Disciplined (Function.update k t (.free none)) := by
  refine ⟨?_, ?_, ?_⟩
  · intro u r hu
    rw [ht, Table.get?_erase] at hu
    split at hu
    · cases hu
    · rename_i e
      rw [Function.update_of_ne e]
      exact hd.obeys u r hu
  · intro u hu
    rw [ht, Table.get?_erase] at hu
    by_cases e : u = t
    · rw [e, Function.update_self]
    · rw [if_neg e] at hu
      rw [Function.update_of_ne e]
      exact hd.absent u hu
  · intro u r hu
    rw [ht, Table.get?_erase] at hu
    rw [hn]
    split at hu
    · cases hu
    · exact hd.old u r hu

/-- Apart from a task that it adds, an action of a task leaves the tasks alone. -/
theorem tasks_perform {a : Action} {answer : a.Answer} (hp : m.perform t a = some (answer, m')) :
    (∃ phase, a = .spawn phase ∧ m' = m.addTask phase.routine) ∨ (m'.tasks = m.tasks ∧ m'.nextTask = m.nextTask) := by
  cases a with
  | spawn phase =>
    cases hp
    exact .inl ⟨phase, rfl, rfl⟩
  | _ => exact .inr ((spares_perform hp).tasks (by simp [Action.reach]))

theorem perform (hd : m.Disciplined k) {a : Action} {answer : a.Answer} (ha : (k t).Allows a)
    (hp : m.perform t a = some (answer, m')) : m'.Disciplined k := by
  rcases tasks_perform hp with ⟨phase, rfl, rfl⟩ | ⟨ht, hn⟩
  · apply hd.addTask
    have hphase : phase.sequence? = none := ha
    rw [← hphase]
    exact obeys_phase phase
  · exact hd.congr ht hn

theorem get?_perform (hd : m.Disciplined k) {a : Action} {answer : a.Answer} {r : Routine Next}
    (hp : m.perform t a = some (answer, m')) (ht : m.tasks.get? t = some r) : m'.tasks.get? t = some r := by
  rcases tasks_perform hp with ⟨phase, rfl, rfl⟩ | ⟨he, -⟩
  · rw [Machine.addTask, Table.get?_insert, if_neg (hd.task_ne ht)]
    exact ht
  · rw [he]
    exact ht

end Machine.Disciplined

namespace Course.Invariant

variable {I J : Course → Conducts → Prop} {x : Course} {k : Conducts}

theorem and (hI : Invariant I) (hJ : Invariant J) : Invariant fun x k => I x k ∧ J x k where
  alike x k m h hm := ⟨hI.alike x k m h.1 hm, hJ.alike x k m h.2 hm⟩
  act x k t a answer m h ha hp := ⟨hI.act x k t a answer m h.1 ha hp, hJ.act x k t a answer m h.2 ha hp⟩
  turn x k t post post' h hk hp := ⟨hI.turn x k t post post' h.1 hk hp, hJ.turn x k t post post' h.2 hk hp⟩
  lose x k t m h hm := ⟨hI.lose x k t m h.1 hm, hJ.lose x k t m h.2 hm⟩

theorem step (hI : Invariant I) (hd : x.machine.Disciplined k) (h : I x k) (t : TaskId) :
    ∃ k', (x.happen (.step t)).machine.Disciplined k' ∧ I (x.happen (.step t)) k' := by
  cases hadv : x.machine.advance t with
  | none =>
    refine ⟨k, ?_⟩
    rw [Course.happen, hadv, deed?_eq_none hadv, Option.toList_none, List.append_nil]
    exact ⟨hd, h⟩
  | some m =>
    obtain ⟨r, ht⟩ := exists_routine hadv
    have hr := hd.obeys t r ht
    rw [Course.happen, hadv]
    cases r with
    | step action next =>
      obtain ⟨answer, m₁, hp, hdeed, rfl⟩ := advance_step ht hadv
      obtain ⟨ha, hnext⟩ := hr
      rw [hdeed]
      refine ⟨Function.update k t ((k t).after action answer), ?_, ?_⟩
      · exact (hd.perform ha hp).insert (hd.get?_perform hp ht) (hnext answer)
      · exact hI.alike _ _ _ (hI.act x k t action answer m₁ h ha hp) ⟨rfl, rfl, rfl, rfl, rfl, rfl, rfl⟩
    | done next =>
      have hdeed : x.machine.deed? t = none := by
        rw [Machine.deed?, ht]
      rw [hdeed, Option.toList_none, List.append_nil]
      rw [Machine.advance, ht] at hadv
      cases next with
      | finish result =>
        cases hadv
        obtain ⟨post, hk⟩ := hr
        refine ⟨Function.update k t (.free none), hd.erase rfl rfl, ?_⟩
        exact hI.alike _ _ _ (hI.turn x k t post none h hk (.inl rfl)) ⟨rfl, rfl, rfl, rfl, rfl, rfl, rfl⟩
      | resume phase =>
        cases hadv
        obtain ⟨post, hk, hpost⟩ := hr
        refine ⟨Function.update k t (.free phase.sequence?), hd.insert ht (obeys_phase phase), ?_⟩
        refine hI.alike _ _ _ (hI.turn x k t post phase.sequence? h hk ?_) ⟨rfl, rfl, rfl, rfl, rfl, rfl, rfl⟩
        cases hs : phase.sequence? with
        | none => exact .inl rfl
        | some sequence => exact .inr (hpost sequence hs).symm

theorem drop (hI : Invariant I) (hd : x.machine.Disciplined k) (h : I x k) (t : TaskId) :
    ∃ k', (x.happen (.drop t)).machine.Disciplined k' ∧ I (x.happen (.drop t)) k' := by
  rw [Course.happen, Machine.drop]
  split
  · exact ⟨k, hd, h⟩
  · exact ⟨Function.update k t (.free none), hd.erase rfl rfl, hI.lose x k t _ h ⟨rfl, rfl, rfl, rfl, rfl, rfl, rfl⟩⟩

theorem happen (hI : Invariant I) (hd : x.machine.Disciplined k) (h : I x k) (e : Occurrence) :
    ∃ k', (x.happen e).machine.Disciplined k' ∧ I (x.happen e) k' := by
  cases e with
  | step t => exact hI.step hd h t
  | drop t => exact hI.drop hd h t
  | start op =>
    exact ⟨k, hd.addTask (obeys_operation _ op none), hI.alike x k _ h ⟨rfl, rfl, rfl, rfl, rfl, rfl, rfl⟩⟩
  | receive bytes =>
    refine ⟨k, ?_⟩
    rw [Course.happen, Machine.receive]
    split
    · exact ⟨hd, h⟩
    · exact ⟨hd.congr rfl rfl, hI.alike x k _ h ⟨rfl, rfl, rfl, rfl, rfl, rfl, rfl⟩⟩
  | _ => exact ⟨k, hd.congr rfl rfl, hI.alike x k _ h ⟨rfl, rfl, rfl, rfl, rfl, rfl, rfl⟩⟩

theorem run (hI : Invariant I) (hd : x.machine.Disciplined k) (h : I x k) (occurrences : List Occurrence) :
    ∃ k', (x.run occurrences).machine.Disciplined k' ∧ I (x.run occurrences) k' := by
  induction occurrences using List.reverseRecOn with
  | nil => exact ⟨k, hd, h⟩
  | append_singleton occurrences e ih =>
    obtain ⟨k', hd', h'⟩ := ih
    rw [run_concat]
    exact hI.happen hd' h' e

end Course.Invariant

/-! ## The beginning -/

def Conducts.first : Conducts :=
  Function.update (fun _ => .free none) 2 (.free (some 0))

theorem disciplined_begin (o : ClientOptions) (files : FileTree) (hasProcess : Bool) :
    (Course.begin o files hasProcess).machine.Disciplined .first := by
  have hblank : (Machine.blank o files .starting).Disciplined fun _ => .free none := by
    refine ⟨?_, fun _ _ => rfl, ?_⟩
    all_goals
      intro t r ht
      cases ht
  have hserved : (Machine.connected o files).Disciplined .first := by
    have hattached := (hblank.addTask (obeys_phase .writing)).addTask (obeys_phase .reading)
    exact hattached.addTask_update (obeys_phase (.dispatching _ 0))
  cases hasProcess with
  | false => exact hserved
  | true => exact (hserved.addTask (obeys_phase .watching)).congr rfl rfl

theorem Conducts.first_eq_free (t : TaskId) : Conducts.first t = .free (Conducts.first t).post := by
  by_cases e : t = 2
  · rw [e]
    rfl
  · rw [first, Function.update_of_ne e]
    rfl

theorem Course.Invariant.run_begin {I : Course → Conducts → Prop} (hI : Invariant I) {o : ClientOptions}
    {files : FileTree} (h : I ⟨.blank o files .starting, []⟩ .first) (hasProcess : Bool)
    (occurrences : List Occurrence) :
    ∃ k, ((begin o files hasProcess).run occurrences).machine.Disciplined k ∧
      I ((begin o files hasProcess).run occurrences) k := by
  refine hI.run (disciplined_begin o files hasProcess) (hI.alike _ _ _ h ?_) occurrences
  cases hasProcess
  all_goals exact ⟨rfl, rfl, rfl, rfl, rfl, rfl, rfl⟩

end Liaison
