import Liaison.Proofs.Session.Course
import Liaison.Proofs.Session.Invariance
import Liaison.Proofs.Session.Rules

/-!
# Placement

A placement says where every task begins under given rules, and where it may end. As long as nobody is started who has
no place in it, all tasks of a session keep to the rules, and all that can happen is said once, as a relation.
-/

namespace Liaison

structure Placement {σ : Type} (R : Rules σ) where
  Admits : Operation → Prop
  operation : Operation → σ
  phase : Phase → σ
  Fits : Next → σ → Prop
  keeps_operation : ∀ o op, Admits op → (op.routine o).Keeps R (operation op) Fits
  keeps_phase : ∀ p : Phase, p.routine.Keeps R (phase p) Fits

def Occurrence.IsWorldly : Occurrence → Prop
  | start _ | step _ | drop _ => False
  | _ => True

structure Machine.SameWork (m m' : Machine) : Prop where
  tasks : m'.tasks = m.tasks
  nextTask : m'.nextTask = m.nextTask
  results : m'.results = m.results
  state : m'.state = m.state
  registry : m'.registry = m.registry
  outbox : m'.outbox = m.outbox
  written : m'.outlet.written = m.outlet.written
  frames : m'.outlet.frames = m.outlet.frames

theorem happen_of_isWorldly {e : Occurrence} (he : e.IsWorldly) (x : Course) :
    ∃ m, x.happen e = ⟨m, x.history⟩ ∧ x.machine.SameWork m := by
  cases e with
  | start op => cases he
  | step t => cases he
  | drop t => cases he
  | receive bytes =>
    rw [Course.happen, Machine.receive]
    split
    · exact ⟨_, rfl, rfl, rfl, rfl, rfl, rfl, rfl, rfl, rfl⟩
    · exact ⟨_, rfl, rfl, rfl, rfl, rfl, rfl, rfl, rfl, rfl⟩
  | _ => exact ⟨_, rfl, rfl, rfl, rfl, rfl, rfl, rfl, rfl, rfl⟩

theorem forall_task_lt_concat {h : History} {d : Deed} {n n' : Nat} (hold : ∀ d ∈ h, d.task < n) (hd : d.task < n)
    (hn : n ≤ n') : ∀ d' ∈ h ++ [d], d'.task < n' := by
  intro d' hd'
  rcases List.mem_append.mp hd' with hd' | hd'
  · exact Nat.lt_of_lt_of_le (hold d' hd') hn
  · rw [List.mem_singleton.mp hd']
    exact Nat.lt_of_lt_of_le hd hn

section

variable {σ : Type} {R : Rules σ} (c : Placement R)

structure Machine.KeepsRules (m : Machine) (places : TaskId → σ) : Prop where
  keeps : ∀ t r, m.tasks.get? t = some r → r.Keeps R (places t) c.Fits
  old : ∀ t r, m.tasks.get? t = some r → t < m.nextTask

inductive Placement.Move (x : Course) (places : TaskId → σ) : Occurrence → Course → (TaskId → σ) → Prop
  | act {t : TaskId} {a : Action} {answer : a.Answer} {m : Machine} {next : a.Answer → Routine Next}
    (ht : x.machine.tasks.get? t = some (.step a next)) (ha : R.Allows (places t) a)
    (hp : x.machine.perform t a = some (answer, m)) (htasks : m.tasks = x.machine.tasks)
    (hnext : m.nextTask = x.machine.nextTask) :
    Move x places (.step t) ⟨{ m with tasks := m.tasks.insert t (next answer) }, x.history ++ [⟨t, a, answer⟩]⟩
      (Function.update places t (R.after (places t) a answer))
  | spawn {t : TaskId} {phase : Phase} {next : Unit → Routine Next}
    (ht : x.machine.tasks.get? t = some (.step (.spawn phase) next)) (ha : R.Allows (places t) (.spawn phase)) :
    Move x places (.step t)
      ⟨{ x.machine.addTask phase.routine with
          tasks := (x.machine.addTask phase.routine).tasks.insert t (next ()) },
        x.history ++ [⟨t, .spawn phase, ()⟩]⟩
      (Function.update (Function.update places x.machine.nextTask (c.phase phase)) t
        (R.after (places t) (.spawn phase) ()))
  | finish {t : TaskId} {result : Result} (ht : x.machine.tasks.get? t = some (.done (.finish result)))
    (hf : c.Fits (.finish result) (places t)) :
    Move x places (.step t)
      ⟨{ x.machine with tasks := x.machine.tasks.erase t, results := x.machine.results.insert t result }, x.history⟩
      places
  | resume {t : TaskId} {phase : Phase} (ht : x.machine.tasks.get? t = some (.done (.resume phase)))
    (hf : c.Fits (.resume phase) (places t)) :
    Move x places (.step t) ⟨{ x.machine with tasks := x.machine.tasks.insert t phase.routine }, x.history⟩
      (Function.update places t (c.phase phase))
  | wait {t : TaskId} (h : x.machine.advance t = none) : Move x places (.step t) x places
  | start {op : Operation} (ha : c.Admits op) :
    Move x places (.start op) ⟨x.machine.addTask (op.routine x.machine.options), x.history⟩
      (Function.update places x.machine.nextTask (c.operation op))
  | drop {t : TaskId} {r : Routine Next} (ht : x.machine.tasks.get? t = some r) :
    Move x places (.drop t) ⟨x.machine.drop t, x.history⟩ places
  | miss {t : TaskId} (ht : x.machine.tasks.get? t = none) : Move x places (.drop t) x places
  | world {e : Occurrence} (he : e.IsWorldly) : Move x places e (x.happen e) places

variable {c} {x : Course} {m m' : Machine} {places : TaskId → σ}

namespace Machine.KeepsRules

theorem congr (h : m.KeepsRules c places) (ht : m'.tasks = m.tasks) (hn : m'.nextTask = m.nextTask) :
    m'.KeepsRules c places := by
  constructor
  · rw [ht]
    exact h.keeps
  · rw [ht, hn]
    exact h.old

theorem ne_nextTask (h : m.KeepsRules c places) {t : TaskId} {r : Routine Next} (ht : m.tasks.get? t = some r) :
    t ≠ m.nextTask :=
  Nat.ne_of_lt (h.old t r ht)

theorem addTask (h : m.KeepsRules c places) {r : Routine Next} {s : σ} (hr : r.Keeps R s c.Fits) :
    (m.addTask r).KeepsRules c (Function.update places m.nextTask s) := by
  constructor
  · intro u r' hu
    rw [Machine.addTask, Table.get?_insert] at hu
    by_cases e : u = m.nextTask
    · rw [if_pos e] at hu
      cases hu
      rw [e, Function.update_self]
      exact hr
    · rw [if_neg e] at hu
      rw [Function.update_of_ne e]
      exact h.keeps u r' hu
  · intro u r' hu
    rw [Machine.addTask, Table.get?_insert] at hu
    split at hu
    · rename_i e
      rw [e]
      exact Nat.lt_succ_self _
    · exact Nat.lt_succ_of_lt (h.old u r' hu)

theorem insert (h : m.KeepsRules c places) {t : TaskId} {r r' : Routine Next} {s : σ} (ht : m.tasks.get? t = some r')
    (hr : r.Keeps R s c.Fits) :
    { m with tasks := m.tasks.insert t r }.KeepsRules c (Function.update places t s) := by
  constructor
  · intro u q hu
    rw [Table.get?_insert] at hu
    by_cases e : u = t
    · rw [if_pos e] at hu
      cases hu
      rw [e, Function.update_self]
      exact hr
    · rw [if_neg e] at hu
      rw [Function.update_of_ne e]
      exact h.keeps u q hu
  · intro u q hu
    rw [Table.get?_insert] at hu
    split at hu
    · rename_i e
      rw [e]
      exact h.old t r' ht
    · exact h.old u q hu

theorem erase (h : m.KeepsRules c places) {t : TaskId} (ht : m'.tasks = m.tasks.erase t)
    (hn : m'.nextTask = m.nextTask) : m'.KeepsRules c places := by
  constructor
  · intro u r hu
    rw [ht, Table.get?_erase] at hu
    split at hu
    · cases hu
    · exact h.keeps u r hu
  · intro u r hu
    rw [ht, Table.get?_erase] at hu
    rw [hn]
    split at hu
    · cases hu
    · exact h.old u r hu

theorem step (h : x.machine.KeepsRules c places) (t : TaskId) :
    ∃ places', c.Move x places (.step t) (x.happen (.step t)) places' ∧
      (x.happen (.step t)).machine.KeepsRules c places' := by
  cases hadv : x.machine.advance t with
  | none =>
    refine ⟨places, ?_⟩
    rw [Course.happen, hadv, deed?_eq_none hadv, Option.toList_none, List.append_nil]
    exact ⟨.wait hadv, h⟩
  | some m =>
    obtain ⟨r, ht⟩ := exists_routine hadv
    have hr := h.keeps t r ht
    rw [Course.happen, hadv]
    cases r with
    | step action next =>
      obtain ⟨answer, m₁, hp, hdeed, rfl⟩ := advance_step ht hadv
      obtain ⟨ha, hnext⟩ := hr
      rw [hdeed]
      rcases Machine.Disciplined.tasks_perform hp with ⟨phase, rfl, rfl⟩ | ⟨htasks, hn⟩
      · refine ⟨_, .spawn ht ha, ?_⟩
        have hadd := h.addTask (c.keeps_phase phase)
        have hne : t ≠ x.machine.nextTask := h.ne_nextTask ht
        have ht' : (x.machine.addTask phase.routine).tasks.get? t = some (.step (.spawn phase) next) := by
          rw [Machine.addTask, Table.get?_insert, if_neg hne]
          exact ht
        exact hadd.insert ht' (hnext ())
      · refine ⟨_, .act ht ha hp htasks hn, ?_⟩
        have ht' : m₁.tasks.get? t = some (.step action next) := by
          rw [htasks]
          exact ht
        exact (h.congr htasks hn).insert ht' (hnext answer)
    | done next =>
      have hdeed : x.machine.deed? t = none := by
        rw [Machine.deed?, ht]
      rw [hdeed, Option.toList_none, List.append_nil]
      rw [Machine.advance, ht] at hadv
      cases next with
      | finish result =>
        cases hadv
        exact ⟨_, .finish ht hr, h.erase rfl rfl⟩
      | resume phase =>
        cases hadv
        exact ⟨_, .resume ht hr, h.insert ht (c.keeps_phase phase)⟩

theorem world (h : x.machine.KeepsRules c places) {e : Occurrence} (he : e.IsWorldly) :
    ∃ places', c.Move x places e (x.happen e) places' ∧ (x.happen e).machine.KeepsRules c places' := by
  obtain ⟨m, hm, hsame⟩ := happen_of_isWorldly he x
  refine ⟨places, .world he, ?_⟩
  rw [hm]
  exact h.congr hsame.tasks hsame.nextTask

/-- Whatever happens is one of the moves, and the tasks keep to the rules. -/
theorem happen (h : x.machine.KeepsRules c places) (e : Occurrence) (he : ∀ op, e = .start op → c.Admits op) :
    ∃ places', c.Move x places e (x.happen e) places' ∧ (x.happen e).machine.KeepsRules c places' := by
  cases e with
  | step t => exact h.step t
  | start op => exact ⟨_, .start (he op rfl), h.addTask (c.keeps_operation _ op (he op rfl))⟩
  | drop t =>
    refine ⟨places, ?_⟩
    cases ht : x.machine.tasks.get? t with
    | none =>
      have hm : x.machine.drop t = x.machine := by
        rw [Machine.drop, ht]
        rfl
      rw [Course.happen, hm]
      exact ⟨.miss ht, h⟩
    | some r =>
      refine ⟨.drop ht, ?_⟩
      rw [Course.happen, Machine.drop, ht]
      exact h.erase rfl rfl
  | _ => exact h.world trivial

end Machine.KeepsRules

theorem Placement.run {I : List Occurrence → Course → (TaskId → σ) → Prop} (hx : x.machine.KeepsRules c places)
    (hi : I [] x places)
    (hI : ∀ occurrences e places places', (x.run occurrences).machine.KeepsRules c places →
      I occurrences (x.run occurrences) places →
      c.Move (x.run occurrences) places e (x.run (occurrences ++ [e])) places' →
      I (occurrences ++ [e]) (x.run (occurrences ++ [e])) places')
    (occurrences : List Occurrence) (ha : ∀ op, .start op ∈ occurrences → c.Admits op) :
    ∃ places', (x.run occurrences).machine.KeepsRules c places' ∧ I occurrences (x.run occurrences) places' := by
  induction occurrences using List.reverseRecOn with
  | nil => exact ⟨places, hx, hi⟩
  | append_singleton occurrences e ih =>
    obtain ⟨places', hx', hi'⟩ := ih fun op hop => ha op (List.mem_append_left _ hop)
    obtain ⟨places'', hmove, hx''⟩ := hx'.happen e fun op he => ha op (by simp [he])
    rw [← Course.run_concat] at hmove hx''
    exact ⟨places'', hx'', hI _ _ _ _ hx' hi' hmove⟩

/-! ## Outsiders -/

structure Placement.Excludes (c : Placement R) (own : TaskId) (outside : σ) : Prop where
  operation : ∀ op, c.operation op = outside
  after : ∀ a answer, R.Allows outside a → R.after outside a answer = outside
  spawn : ∀ s phase, R.Allows s (.spawn phase) → c.phase phase = outside
  resume : ∀ phase, c.Fits (.resume phase) outside → c.phase phase = outside

/-! ## The beginning -/

def Placement.first (c : Placement R) (o : ClientOptions) : TaskId → σ
  | 0 => c.phase .writing
  | 1 => c.phase .reading
  | 2 => c.phase (.dispatching (fileUri? o.root) 0)
  | _ => c.phase .watching

theorem keepsRules_begin (c : Placement R) (o : ClientOptions) (files : FileTree) (hasProcess : Bool) :
    (Course.begin o files hasProcess).machine.KeepsRules c (c.first o) := by
  have hblank : (Machine.blank o files .starting).KeepsRules c (c.first o) := by
    constructor
    all_goals
      intro t r ht
      cases ht
  have hadd : ∀ {m : Machine} {p : Phase}, m.KeepsRules c (c.first o) → c.first o m.nextTask = c.phase p →
      (m.addTask p.routine).KeepsRules c (c.first o) := by
    intro m p hm hp
    have h := hm.addTask (c.keeps_phase p)
    rwa [← hp, Function.update_eq_self] at h
  have hserved : (Machine.connected o files).KeepsRules c (c.first o) :=
    hadd (hadd (hadd hblank rfl) rfl) rfl
  cases hasProcess with
  | false => exact hserved
  | true => exact (hadd hserved rfl).congr rfl rfl

end

end Liaison
