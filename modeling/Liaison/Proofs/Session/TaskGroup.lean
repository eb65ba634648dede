import Liaison.Proofs.Session.Placement
import Liaison.Proofs.Session.Streams

/-!
# Groups of tasks

Often only the tasks of some operations matter, and all others stay outside. Then little can happen to the places: a
task of the group does something and moves on, or a new task gets a place of its own.
-/

namespace Liaison

/-! ## Tasks of a kind -/

/-- The task that is started, if it is for an operation of the kind. -/
def Course.startedFor (x : Course) (kind : Operation → Bool) : Occurrence → List TaskId
  | .start op => if kind op then [x.machine.nextTask] else []
  | _ => []

def Course.tasksFor (x : Course) (kind : Operation → Bool) : List Occurrence → List TaskId
  | [] => []
  | e :: rest => x.startedFor kind e ++ (x.happen e).tasksFor kind rest

theorem tasksFor_append (x : Course) (kind : Operation → Bool) (first later : List Occurrence) :
    x.tasksFor kind (first ++ later) = x.tasksFor kind first ++ (x.run first).tasksFor kind later := by
  induction first generalizing x with
  | nil => rfl
  | cons e first ih =>
    rw [List.cons_append, Course.tasksFor, ih, Course.tasksFor, List.append_assoc]
    rfl

/-! ## Tasks with a part -/

section

variable {σ : Type} {R : Rules σ}

/-- Only operations of the kind have a part. No task gets to a place that does not count, or back outside. -/
structure Placement.Confines (c : Placement R) (kind : Operation → Bool) (outside : σ) (Counts : σ → Prop) : Prop where
  counts : Counts outside
  operation : ∀ op, c.Admits op → Counts (c.operation op) ∧ (c.operation op = outside ↔ kind op = false)
  after : ∀ s a answer, Counts s → R.Allows s a →
    Counts (R.after s a answer) ∧ (R.after s a answer = outside ↔ s = outside)
  spawn : ∀ s phase, Counts s → R.Allows s (.spawn phase) → c.phase phase = outside
  resume : ∀ s phase, Counts s → c.Fits (.resume phase) s → s = outside ∧ c.phase phase = outside

structure TaskGroup (c : Placement R) (outside : σ) (Counts : σ → Prop) (members : List TaskId) (x : Course)
    (places : TaskId → σ) : Prop where
  members : ∀ t, places t ≠ outside ↔ t ∈ members
  counts : ∀ t, Counts (places t)
  unused : ∀ t, x.machine.nextTask ≤ t → places t = outside ∧ x.machine.results.get? t = none
  old : ∀ d ∈ x.history, d.task < x.machine.nextTask
  returned : ∀ t result, x.machine.results.get? t = some result →
    x.machine.tasks.get? t = none ∧ c.Fits (.finish result) (places t)

inductive Placement.Change (c : Placement R) (x : Course) (places : TaskId → σ) : Course → (TaskId → σ) → Prop
  | deed {t : TaskId} {a : Action} {answer : a.Answer} {m : Machine} {tasks : Table TaskId (Routine Next)}
    (ha : R.Allows (places t) a) (hp : x.machine.perform t a = some (answer, m)) :
    Change c x places ⟨{ m with tasks := tasks }, x.history ++ [⟨t, a, answer⟩]⟩
      (Function.update places t (R.after (places t) a answer))
  | newcomer {op : Operation} (ha : c.Admits op) :
    Change c x places ⟨x.machine.addTask (op.routine x.machine.options), x.history⟩
      (Function.update places x.machine.nextTask (c.operation op))
  | still {m : Machine} (hs : m.state = x.machine.state) (ho : m.outbox = x.machine.outbox) :
    Change c x places ⟨m, x.history⟩ places

variable {c : Placement R} {kind : Operation → Bool} {outside : σ} {Counts : σ → Prop} {members : List TaskId}
  {x : Course} {places : TaskId → σ} {m : Machine} {t : TaskId}

namespace TaskGroup

theorem lt_nextTask (h : TaskGroup c outside Counts members x places) {result : Result}
    (ht : x.machine.results.get? t = some result) : t < x.machine.nextTask := by
  by_contra hle
  simp [(h.unused t (Nat.not_lt.mp hle)).2] at ht

theorem update_spawn (h : TaskGroup c outside Counts members x places) (hc : c.Confines kind outside Counts)
    {phase : Phase} (ha : R.Allows (places t) (.spawn phase)) :
    Function.update places x.machine.nextTask (c.phase phase) = places := by
  rw [hc.spawn (places t) phase (h.counts t) ha, ← (h.unused _ (Nat.le_refl _)).1, Function.update_eq_self]

theorem update_resume (h : TaskGroup c outside Counts members x places) (hc : c.Confines kind outside Counts)
    {phase : Phase} (hf : c.Fits (.resume phase) (places t)) : Function.update places t (c.phase phase) = places := by
  obtain ⟨hplace, hphase⟩ := hc.resume (places t) phase (h.counts t) hf
  rw [hphase, ← hplace, Function.update_eq_self]

theorem deed (h : TaskGroup c outside Counts members x places) (hc : c.Confines kind outside Counts) {a : Action}
    {answer : a.Answer} {tasks : Table TaskId (Routine Next)} {r : Routine Next} (ht : x.machine.tasks.get? t = some r)
    (hlt : t < x.machine.nextTask) (ha : R.Allows (places t) a) (hp : x.machine.perform t a = some (answer, m))
    (hn : x.machine.nextTask ≤ m.nextTask)
    (hgone : ∀ u, u ≠ t → u < x.machine.nextTask → x.machine.tasks.get? u = none → tasks.get? u = none) :
    TaskGroup c outside Counts members ⟨{ m with tasks := tasks }, x.history ++ [⟨t, a, answer⟩]⟩
      (Function.update places t (R.after (places t) a answer)) := by
  have hresults : m.results = x.machine.results := (streams_perform hp).results
  obtain ⟨hcounts, houtside⟩ := hc.after (places t) a answer (h.counts t) ha
  constructor
  case members =>
    intro u
    by_cases e : u = t
    · subst e
      rw [Function.update_self, Ne, houtside]
      exact h.members u
    · rw [Function.update_of_ne e]
      exact h.members u
  case counts =>
    intro u
    by_cases e : u = t
    · subst e
      rwa [Function.update_self]
    · rw [Function.update_of_ne e]
      exact h.counts u
  case unused =>
    intro u hu
    have hu' : x.machine.nextTask ≤ u := Nat.le_trans hn hu
    rw [Function.update_of_ne (Nat.ne_of_gt (Nat.lt_of_lt_of_le hlt hu'))]
    simpa [hresults] using h.unused u hu'
  case old => exact forall_task_lt_concat h.old hlt hn
  case returned =>
    -- Who has returned is gone, and so it is not the one that does something now.
    intro u result hu
    rw [hresults] at hu
    obtain ⟨hnone, hfits⟩ := h.returned u result hu
    have hne : u ≠ t := by
      rintro rfl
      simp [ht] at hnone
    rw [Function.update_of_ne hne]
    exact ⟨hgone u hne (h.lt_nextTask hu) hnone, hfits⟩

theorem newcomer (h : TaskGroup c outside Counts members x places) (hc : c.Confines kind outside Counts)
    {op : Operation} (ha : c.Admits op) : TaskGroup c outside Counts (members ++ x.startedFor kind (.start op))
      ⟨x.machine.addTask (op.routine x.machine.options), x.history⟩
      (Function.update places x.machine.nextTask (c.operation op)) := by
  obtain ⟨hnew, hnone⟩ := h.unused x.machine.nextTask (Nat.le_refl _)
  obtain ⟨hcounts, hkind⟩ := hc.operation op ha
  constructor
  case members =>
    intro t
    by_cases e : t = x.machine.nextTask
    · subst e
      have hout : x.machine.nextTask ∉ members := by simp [← h.members, hnew]
      rw [Function.update_self, Ne, hkind]
      simp [Course.startedFor, hout]
    · rw [Function.update_of_ne e, h.members]
      simp [Course.startedFor, e]
  case counts =>
    intro t
    by_cases e : t = x.machine.nextTask
    · subst e
      rwa [Function.update_self]
    · rw [Function.update_of_ne e]
      exact h.counts t
  case unused =>
    intro t ht
    rw [Function.update_of_ne (Nat.ne_of_gt ht)]
    exact h.unused t (Nat.le_of_succ_le ht)
  case old => exact fun d hd => Nat.lt_succ_of_lt (h.old d hd)
  case returned =>
    intro t result ht
    have hne : t ≠ x.machine.nextTask := Nat.ne_of_lt (h.lt_nextTask ht)
    obtain ⟨hnone, hfits⟩ := h.returned t result ht
    rw [Function.update_of_ne hne]
    exact ⟨by simpa [Machine.addTask, hne] using hnone, hfits⟩

theorem still (h : TaskGroup c outside Counts members x places) (hn : m.nextTask = x.machine.nextTask)
    (hr : ∀ u result, m.results.get? u = some result → x.machine.results.get? u = some result ∨
      u < x.machine.nextTask ∧ m.tasks.get? u = none ∧ c.Fits (.finish result) (places u))
    (hgone : ∀ u, u < x.machine.nextTask → x.machine.tasks.get? u = none → m.tasks.get? u = none) :
    TaskGroup c outside Counts members ⟨m, x.history⟩ places := by
  refine ⟨h.members, h.counts, ?_, fun d hd => hn ▸ h.old d hd, ?_⟩
  · intro u hu
    obtain ⟨hplace, hnone⟩ := h.unused u (hn ▸ hu)
    refine ⟨hplace, ?_⟩
    cases hresult : m.results.get? u with
    | none => rfl
    | some result =>
      rcases hr u result hresult with hsome | ⟨hlt, -⟩
      · simp [hnone] at hsome
      · exact absurd hlt (Nat.not_lt.mpr (hn ▸ hu))
  · intro u result hu
    rcases hr u result hu with hsome | ⟨-, hnone, hfits⟩
    · obtain ⟨hnone, hfits⟩ := h.returned u result hsome
      exact ⟨hgone u (h.lt_nextTask hsome) hnone, hfits⟩
    · exact ⟨hnone, hfits⟩

theorem move (h : TaskGroup c outside Counts members x places) (hc : c.Confines kind outside Counts)
    (hrules : x.machine.KeepsRules c places) {e : Occurrence} {x' : Course} {places' : TaskId → σ}
    (hmove : c.Move x places e x' places') :
    TaskGroup c outside Counts (members ++ x.startedFor kind e) x' places' ∧ c.Change x places x' places' := by
  have hnobody : (∀ op, e ≠ .start op) → members ++ x.startedFor kind e = members := by
    intro he
    cases e with
    | start op => exact absurd rfl (he op)
    | _ => exact List.append_nil members
  cases hmove with
  | @act t a answer m next ht ha hp htasks hnext =>
    rw [hnobody (by simp)]
    refine ⟨h.deed hc ht (hrules.old t _ ht) ha hp (Nat.le_of_eq hnext.symm) ?_, .deed ha hp⟩
    intro u hne hlt hu
    simpa [hne, htasks] using hu
  | @spawn t phase next ht ha =>
    rw [hnobody (by simp), h.update_spawn hc ha]
    refine ⟨h.deed hc ht (hrules.old t _ ht) ha rfl (Nat.le_succ _) ?_, .deed ha rfl⟩
    intro u hne hlt hu
    simpa [Machine.addTask, hne, Nat.ne_of_lt hlt] using hu
  | @finish t result ht hf =>
    rw [hnobody (by simp)]
    refine ⟨h.still rfl ?_ ?_, .still rfl rfl⟩
    · intro u result' hu
      rw [Table.get?_insert] at hu
      by_cases e : u = t
      · subst e
        obtain rfl : result = result' := by simpa using hu
        exact .inr ⟨hrules.old u _ ht, by simp, hf⟩
      · rw [if_neg e] at hu
        exact .inl hu
    · intro u hlt hu
      simp [hu]
  | @resume t phase ht hf =>
    rw [hnobody (by simp), h.update_resume hc hf]
    refine ⟨h.still rfl (fun _ _ hu => .inl hu) ?_, .still rfl rfl⟩
    intro u hlt hu
    have hne : u ≠ t := by
      rintro rfl
      simp [ht] at hu
    simpa [hne] using hu
  | wait hw =>
    rw [hnobody (by simp)]
    exact ⟨h, .still rfl rfl⟩
  | start ha => exact ⟨h.newcomer hc ha, .newcomer ha⟩
  | @drop t r ht =>
    rw [hnobody (by simp), Machine.drop, ht]
    refine ⟨h.still rfl (fun _ _ hu => .inl hu) ?_, .still rfl rfl⟩
    intro u hlt hu
    change (x.machine.tasks.erase t).get? u = none
    simp [hu]
  | miss ht =>
    rw [hnobody (by simp)]
    exact ⟨h, .still rfl rfl⟩
  | world he =>
    obtain ⟨m, hm, hsame⟩ := happen_of_isWorldly he x
    rw [hm, hnobody (by rintro op rfl; exact he)]
    exact ⟨h.still hsame.nextTask (fun _ _ hu => .inl (hsame.results ▸ hu)) fun _ _ hu => hsame.tasks ▸ hu,
      .still hsame.state hsame.outbox⟩

theorem run {I : Course → (TaskId → σ) → Prop} (hc : c.Confines kind outside Counts)
    (hrules : x.machine.KeepsRules c places) (h : TaskGroup c outside Counts members x places) (hi : I x places)
    (hI : ∀ members x places x' places', TaskGroup c outside Counts members x places → I x places →
      c.Change x places x' places' → I x' places')
    (occurrences : List Occurrence) (ha : ∀ op, .start op ∈ occurrences → c.Admits op) :
    ∃ places', (x.run occurrences).machine.KeepsRules c places' ∧
      TaskGroup c outside Counts (members ++ x.tasksFor kind occurrences) (x.run occurrences) places' ∧
      I (x.run occurrences) places' := by
  refine Placement.run (I := fun occurrences y places =>
    TaskGroup c outside Counts (members ++ x.tasksFor kind occurrences) y places ∧ I y places)
    hrules ⟨?_, hi⟩ ?_ occurrences ha
  · rwa [Course.tasksFor, List.append_nil]
  · rintro occurrences e places places' hrules ⟨h, hi⟩ hmove
    obtain ⟨h', hchange⟩ := h.move hc hrules hmove
    have hstarted : (x.run occurrences).tasksFor kind [e] = (x.run occurrences).startedFor kind e := List.append_nil _
    rw [tasksFor_append, hstarted, ← List.append_assoc]
    exact ⟨h', hI _ _ _ _ _ h hi hchange⟩

end TaskGroup

end

end Liaison
