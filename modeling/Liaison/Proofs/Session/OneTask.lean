import Liaison.Proofs.Session.Placement
import Liaison.Proofs.Session.Ending

/-!
# One task that matters

Of all tasks only one leaves the outside. Then little can happen that matters to it: it takes its steps, another task
does something beside it, or the world acts.
-/

namespace Liaison

/-! ## What matters to one task -/

section

variable {σ : Type} {R : Rules σ}

structure Machine.SameTraffic (m m' : Machine) : Prop where
  inlet : m'.inlet = m.inlet
  inbound : m'.inbound = m.inbound
  outbox : m'.outbox = m.outbox
  outlet : m'.outlet = m.outlet
  diagnostics : m'.diagnostics = m.diagnostics
  handlers : m'.handlers = m.handlers
  shown : m'.shown = m.shown
  state : m'.state = m.state
  shut : m.registry.IsShut → m'.registry.IsShut

inductive Placement.OneTask (c : Placement R) (own : TaskId) (outside : σ) (x : Course) (places : TaskId → σ) :
    Occurrence → Course → (TaskId → σ) → Prop
  | act {a : Action} {answer : a.Answer} {m : Machine} {next : a.Answer → Routine Next}
    (ht : x.machine.tasks.get? own = some (.step a next)) (ha : R.Allows (places own) a)
    (hp : x.machine.perform own a = some (answer, m)) (hn : x.machine.nextTask ≤ m.nextTask) :
    OneTask c own outside x places (.step own)
      ⟨{ m with tasks := m.tasks.insert own (next answer) }, x.history ++ [⟨own, a, answer⟩]⟩
      (Function.update places own (R.after (places own) a answer))
  | finish {result : Result} (ht : x.machine.tasks.get? own = some (.done (.finish result)))
    (hf : c.Fits (.finish result) (places own)) :
    OneTask c own outside x places (.step own)
      ⟨{ x.machine with
          tasks := x.machine.tasks.erase own
          results := x.machine.results.insert own result }, x.history⟩ places
  | resume {phase : Phase} (ht : x.machine.tasks.get? own = some (.done (.resume phase)))
    (hf : c.Fits (.resume phase) (places own)) :
    OneTask c own outside x places (.step own)
      ⟨{ x.machine with tasks := x.machine.tasks.insert own phase.routine }, x.history⟩
      (Function.update places own (c.phase phase))
  | aside {t : TaskId} {a : Action} {answer : a.Answer} {m : Machine} {tasks : Table TaskId (Routine Next)}
    (ht : t ≠ own) (ha : R.Allows outside a) (hp : x.machine.perform t a = some (answer, m))
    (hn : x.machine.nextTask ≤ m.nextTask) (hown : tasks.get? own = x.machine.tasks.get? own) :
    OneTask c own outside x places (.step t) ⟨{ m with tasks := tasks }, x.history ++ [⟨t, a, answer⟩]⟩ places
  | still {e : Occurrence} {m : Machine} (he : ¬ e.IsWorldly) (hm : x.machine.SameTraffic m)
    (hn : x.machine.nextTask ≤ m.nextTask)
    (hown : m.tasks.get? own = x.machine.tasks.get? own ∨ e = .drop own) :
    OneTask c own outside x places e ⟨m, x.history⟩ places
  | world {e : Occurrence} (he : e.IsWorldly) : OneTask c own outside x places e (x.happen e) places

variable {c : Placement R} {own : TaskId} {outside : σ} {x x' : Course} {places places' : TaskId → σ} {e : Occurrence}

theorem Machine.SameTraffic.refl (m : Machine) : m.SameTraffic m :=
  ⟨rfl, rfl, rfl, rfl, rfl, rfl, rfl, rfl, id⟩

theorem Placement.Excludes.oneTask (hc : c.Excludes own outside) (hmove : c.Move x places e x' places')
    (hothers : ∀ t, t ≠ own → places t = outside) (hold : own < x.machine.nextTask) :
    c.OneTask own outside x places e x' places' := by
  have hsame : ∀ t, t ≠ own → Function.update places t outside = places := by
    intro t ht
    rw [← hothers t ht, Function.update_eq_self]
  have hnew : own ≠ x.machine.nextTask := Nat.ne_of_lt hold
  cases hmove with
  | @act t a answer m next ht ha hp htasks hnext =>
    by_cases e : t = own
    · subst e
      exact .act ht ha hp (Nat.le_of_eq hnext.symm)
    · rw [hothers t e] at ha ⊢
      rw [hc.after a answer ha, hsame t e]
      refine .aside e ha hp (Nat.le_of_eq hnext.symm) ?_
      rw [Table.get?_insert, if_neg (Ne.symm e), htasks]
  | @spawn t phase next ht ha =>
    rw [hc.spawn _ phase ha, hsame _ hnew.symm]
    by_cases e : t = own
    · subst e
      exact .act ht ha rfl (Nat.le_succ _)
    · rw [hothers t e] at ha ⊢
      rw [hc.after _ _ ha, hsame t e]
      refine .aside e ha rfl (Nat.le_succ _) ?_
      simp only [Machine.addTask, Table.get?_insert, if_neg (Ne.symm e), if_neg hnew]
  | @finish t result ht hf =>
    by_cases e : t = own
    · subst e
      exact .finish ht hf
    · refine .still id ⟨rfl, rfl, rfl, rfl, rfl, rfl, rfl, rfl, id⟩ (Nat.le_refl _) (.inl ?_)
      rw [Table.get?_erase, if_neg (Ne.symm e)]
  | @resume t phase ht hf =>
    by_cases e : t = own
    · subst e
      exact .resume ht hf
    · rw [hothers t e] at hf
      rw [hc.resume phase hf, hsame t e]
      refine .still id ⟨rfl, rfl, rfl, rfl, rfl, rfl, rfl, rfl, id⟩ (Nat.le_refl _) (.inl ?_)
      rw [Table.get?_insert, if_neg (Ne.symm e)]
  | wait hw => exact .still id (.refl _) (Nat.le_refl _) (.inl rfl)
  | @start op ha =>
    rw [hc.operation op, hsame _ hnew.symm]
    refine .still id ⟨rfl, rfl, rfl, rfl, rfl, rfl, rfl, rfl, id⟩ (Nat.le_succ _) (.inl ?_)
    rw [Machine.addTask, Table.get?_insert, if_neg hnew]
  | @drop t r ht =>
    have hd : x.machine.drop t = { x.machine with
        tasks := x.machine.tasks.erase t
        registry := (x.machine.callers.filter (·.2 = t)).foldl (fun r p => r.abandon p.1) x.machine.registry
        lines := x.machine.lines.map fun p => (p.1, p.2.filter (· ≠ t)) } := by
      rw [Machine.drop, ht]
      rfl
    rw [hd]
    refine .still id ⟨rfl, rfl, rfl, rfl, rfl, rfl, rfl, rfl, (Registry.carries_foldl_abandon _ _).shut⟩
      (Nat.le_refl _) ?_
    by_cases e : t = own
    · exact .inr (congrArg _ e)
    · left
      rw [Table.get?_erase, if_neg (Ne.symm e)]
  | miss ht => exact .still id (.refl _) (Nat.le_refl _) (.inl rfl)
  | world he => exact .world he

namespace Placement.OneTask

theorem others (h : c.OneTask own outside x places e x' places') (hothers : ∀ t, t ≠ own → places t = outside) :
    ∀ t, t ≠ own → places' t = outside := by
  intro t ht
  cases h with
  | act | resume =>
    rw [Function.update_of_ne ht]
    exact hothers t ht
  | _ => exact hothers t ht

theorem old (h : c.OneTask own outside x places e x' places') (hold : own < x.machine.nextTask) :
    own < x'.machine.nextTask := by
  cases h with
  | finish | resume => exact hold
  | act _ _ _ hn | aside _ _ _ hn | still _ _ hn => exact Nat.lt_of_lt_of_le hold hn
  | world he =>
    obtain ⟨m, hm, hsame⟩ := happen_of_isWorldly he x
    rw [hm]
    exact hsame.nextTask ▸ hold

/-- The task is there until it has ended where it may, or was dropped. -/
theorem present (h : c.OneTask own outside x places e x' places') (Left : σ → Prop) {occurrences : List Occurrence}
    (hleft : ∀ result, c.Fits (.finish result) (places own) → Left (places own))
    (hpresent : x.machine.tasks.get? own = none → Left (places own) ∨ .drop own ∈ occurrences)
    (hnone : x'.machine.tasks.get? own = none) : Left (places' own) ∨ .drop own ∈ occurrences ++ [e] := by
  have hkept : x.machine.tasks.get? own = none → Left (places own) ∨ .drop own ∈ occurrences ++ [e] :=
    fun h => (hpresent h).imp_right (List.mem_append_left _)
  cases h with
  | act | resume => simp at hnone
  | finish _ hf => exact .inl (hleft _ hf)
  | aside _ _ _ _ hown => exact hkept (hown ▸ hnone)
  | still _ _ _ hown =>
    rcases hown with hown | rfl
    · exact hkept (hown ▸ hnone)
    · exact .inr (by simp)
  | world he =>
    obtain ⟨m, hm, hsame⟩ := happen_of_isWorldly he x
    rw [hm] at hnone
    exact hkept (hsame.tasks ▸ hnone)

end Placement.OneTask

/-! ## Coming to rest -/

/-- A task whose every step gets it on comes to rest, if it takes its steps. -/
theorem Placement.exists_rest {I : List Occurrence → Course → (TaskId → σ) → Prop} {toGo : Course → σ → Nat}
    (hI : ∀ {occurrences x places}, I occurrences x places → x.machine.KeepsRules c places →
      x.machine.advance own ≠ none → ∃ places', (x.happen (.step own)).machine.KeepsRules c places' ∧
        I (occurrences ++ [.step own]) (x.happen (.step own)) places' ∧
          toGo (x.happen (.step own)) (places' own) < toGo x (places own))
    {occurrences : List Occurrence} {x : Course} {places : TaskId → σ} (h : I occurrences x places)
    (hc : x.machine.KeepsRules c places) :
    ∃ n ≤ toGo x (places own), ∃ places', (x.run (List.replicate n (.step own))).machine.KeepsRules c places' ∧
      I (occurrences ++ List.replicate n (.step own)) (x.run (List.replicate n (.step own))) places' ∧
      (x.run (List.replicate n (.step own))).machine.advance own = none := by
  by_cases hadv : x.machine.advance own = none
  · exact ⟨0, Nat.zero_le _, places, hc, (List.append_nil occurrences).symm ▸ h, hadv⟩
  · obtain ⟨places', hc', h', hlt⟩ := hI h hc hadv
    obtain ⟨n, hn, hrest⟩ := exists_rest hI h' hc'
    rw [List.append_assoc] at hrest
    exact ⟨n + 1, Nat.lt_of_le_of_lt hn hlt, hrest⟩
termination_by toGo x (places own)

end

end Liaison
