import Liaison.Proofs.Session.Shutdowns

/-!
# The places of all tasks

Where all tasks matter, an invariant is about all places at once. It holds after any run if it is kept whenever
a task does something and moves on, and whenever a task takes the place of a beginning.
-/

namespace Liaison

structure Machine.SameGround (m m' : Machine) : Prop where
  state : m'.state = m.state
  documents : m'.documents = m.documents
  lines : m'.lines = m.lines
  published : m'.process.map (·.published) = m.process.map (·.published)

theorem ground_of_isWorldly {e : Occurrence} (he : e.IsWorldly) (x : Course) :
    x.machine.SameGround (x.happen e).machine := by
  cases e with
  | start op => cases he
  | step t => cases he
  | drop t => cases he
  | receive bytes =>
    rw [Course.happen, Machine.receive]
    split
    · exact ⟨rfl, rfl, rfl, rfl⟩
    · exact ⟨rfl, rfl, rfl, rfl⟩
  | endChild _ | hear _ | endErrors _ => exact ⟨rfl, rfl, rfl, Option.map_map ..⟩
  | _ => exact ⟨rfl, rfl, rfl, rfl⟩

theorem drop_eq (m : Machine) (t : TaskId) : (m.drop t).state = m.state ∧ (m.drop t).documents = m.documents ∧
    (m.drop t).process = m.process := by
  unfold Machine.drop
  split
  · exact ⟨rfl, rfl, rfl⟩
  · exact ⟨rfl, rfl, rfl⟩

section

variable {σ : Type} {R : Rules σ}

structure Placement.Unused (c : Placement R) (m : Machine) (places : TaskId → σ) (t : TaskId) : Prop where
  place : places t = c.phase .watching
  result : m.results.get? t = none

inductive Placement.Enters (c : Placement R) (m : Machine) (places : TaskId → σ) (t : TaskId) : σ → Prop
  | start {op : Operation} (hu : c.Unused m places t) (ha : c.Admits op) : Enters c m places t (c.operation op)
  | spawn {u : TaskId} {phase : Phase} (hu : c.Unused m places t) (ha : R.Allows (places u) (.spawn phase)) :
    Enters c m places t (c.phase phase)
  | resume {phase : Phase} (hf : c.Fits (.resume phase) (places t)) : Enters c m places t (c.phase phase)

structure TaskPlaces (c : Placement R) (m : Machine) (places : TaskId → σ) : Prop where
  unused : ∀ t, m.nextTask ≤ t → c.Unused m places t
  returned : ∀ t result, m.results.get? t = some result → m.tasks.get? t = none ∧ c.Fits (.finish result) (places t)

structure Placement.Upholds (c : Placement R) (Spares : Course → TaskId → Prop)
    (I : Course → (TaskId → σ) → Prop) : Prop where
  alike : ∀ {x m places}, I x places → x.machine.SameGround m → I ⟨m, x.history⟩ places
  enter : ∀ {x places t s}, I x places → c.Enters x.machine places t s → I x (Function.update places t s)
  act : ∀ {x : Course} {places t} {a : Action} {answer : a.Answer} {m}, I x places → R.Allows (places t) a →
    x.machine.perform t a = some (answer, m) →
    I ⟨m, x.history ++ [⟨t, a, answer⟩]⟩ (Function.update places t (R.after (places t) a answer))
  drop : ∀ {x places t}, I x places → Spares x t → I ⟨x.machine.drop t, x.history⟩ places

variable {c : Placement R} {m m' : Machine} {places : TaskId → σ} {t : TaskId}

namespace TaskPlaces

theorem lt_nextTask (h : TaskPlaces c m places) {result : Result} (ht : m.results.get? t = some result) :
    t < m.nextTask := by
  by_contra hle
  simp [(h.unused t (Nat.not_lt.mp hle)).result] at ht

theorem newcomer (h : TaskPlaces c m places) (r : Routine Next) (s : σ) :
    TaskPlaces c (m.addTask r) (Function.update places m.nextTask s) := by
  constructor
  · intro u hu
    have hlt : m.nextTask < u := hu
    obtain ⟨hplace, hresult⟩ := h.unused u (Nat.le_of_lt hlt)
    refine ⟨?_, hresult⟩
    rw [Function.update_of_ne (Nat.ne_of_gt hlt)]
    exact hplace
  · intro u result hu
    have hne : u ≠ m.nextTask := Nat.ne_of_lt (h.lt_nextTask hu)
    obtain ⟨hnone, hfits⟩ := h.returned u result hu
    rw [Function.update_of_ne hne]
    exact ⟨by simpa [Machine.addTask, hne] using hnone, hfits⟩

theorem moves (h : TaskPlaces c m places) {r : Routine Next} (ht : m.tasks.get? t = some r) (hlt : t < m.nextTask)
    (s : σ) (hn : m'.nextTask = m.nextTask) (hr : m'.results = m.results)
    (hgone : ∀ u, u ≠ t → m.tasks.get? u = none → m'.tasks.get? u = none) :
    TaskPlaces c m' (Function.update places t s) := by
  constructor
  · intro u hu
    have hle : m.nextTask ≤ u := hn ▸ hu
    obtain ⟨hplace, hresult⟩ := h.unused u hle
    refine ⟨?_, hr ▸ hresult⟩
    rw [Function.update_of_ne (Nat.ne_of_gt (Nat.lt_of_lt_of_le hlt hle))]
    exact hplace
  · intro u result hu
    obtain ⟨hnone, hfits⟩ := h.returned u result (hr ▸ hu)
    have hne : u ≠ t := by
      rintro rfl
      simp [ht] at hnone
    rw [Function.update_of_ne hne]
    exact ⟨hgone u hne hnone, hfits⟩

theorem still (h : TaskPlaces c m places) (hn : m'.nextTask = m.nextTask)
    (hr : ∀ u result, m'.results.get? u = some result → m.results.get? u = some result ∨
      u < m.nextTask ∧ m'.tasks.get? u = none ∧ c.Fits (.finish result) (places u))
    (hgone : ∀ u, m.tasks.get? u = none → m'.tasks.get? u = none) : TaskPlaces c m' places := by
  constructor
  · intro u hu
    have hle : m.nextTask ≤ u := hn ▸ hu
    obtain ⟨hplace, hnone⟩ := h.unused u hle
    refine ⟨hplace, ?_⟩
    cases hresult : m'.results.get? u with
    | none => rfl
    | some result =>
      rcases hr u result hresult with hsome | ⟨hlt, -⟩
      · simp [hnone] at hsome
      · exact absurd hlt (Nat.not_lt.mpr hle)
  · intro u result hu
    rcases hr u result hu with hsome | ⟨-, hnone, hfits⟩
    · obtain ⟨hnone, hfits⟩ := h.returned u result hsome
      exact ⟨hgone u hnone, hfits⟩
    · exact ⟨hnone, hfits⟩

end TaskPlaces

variable {Spares : Course → TaskId → Prop} {I : Course → (TaskId → σ) → Prop} {x : Course}

namespace Placement.Upholds

theorem move (hI : c.Upholds Spares I) (hc : x.machine.KeepsRules c places) (he : TaskPlaces c x.machine places)
    (hi : I x places) {e : Occurrence} {x' : Course} {places' : TaskId → σ} (hmove : c.Move x places e x' places')
    (hd : ∀ t, e = .drop t → Spares x t) : TaskPlaces c x'.machine places' ∧ I x' places' := by
  have hnew := he.unused x.machine.nextTask (Nat.le_refl _)
  cases hmove with
  | @act t a answer m next ht ha hp htasks hnext =>
    refine ⟨he.moves ht (hc.old t _ ht) _ hnext (streams_perform hp).results ?_, ?_⟩
    · intro u hne hu
      simpa [hne, htasks] using hu
    · exact hI.alike (hI.act hi ha hp) ⟨rfl, rfl, rfl, rfl⟩
  | @spawn t phase next ht ha =>
    have hne : t ≠ x.machine.nextTask := hc.ne_nextTask ht
    have ht' : (x.machine.addTask phase.routine).tasks.get? t = some (.step (.spawn phase) next) := by
      simpa [Machine.addTask, hne] using ht
    -- The new task gets its place first.
    have henter := hI.enter hi (.spawn hnew ha)
    have hplace : Function.update places x.machine.nextTask (c.phase phase) t = places t :=
      Function.update_of_ne hne ..
    have hnewcomer := he.newcomer phase.routine (c.phase phase)
    refine ⟨hnewcomer.moves ht' (Nat.lt_succ_of_lt (hc.old t _ ht)) _ rfl rfl ?_, ?_⟩
    · intro u hne hu
      simpa [hne] using hu
    · have hp : x.machine.perform t (.spawn phase) = some ((), x.machine.addTask phase.routine) := rfl
      have hact := hI.act henter (hplace ▸ ha) hp
      rw [hplace] at hact
      exact hI.alike hact ⟨rfl, rfl, rfl, rfl⟩
  | @finish t result ht hf =>
    refine ⟨he.still rfl ?_ ?_, hI.alike hi ⟨rfl, rfl, rfl, rfl⟩⟩
    · intro u result' hu
      rw [Table.get?_insert] at hu
      by_cases e : u = t
      · subst e
        obtain rfl : result = result' := by simpa using hu
        exact .inr ⟨hc.old u _ ht, by simp, hf⟩
      · rw [if_neg e] at hu
        exact .inl hu
    · intro u hu
      simp [hu]
  | @resume t phase ht hf =>
    refine ⟨he.moves ht (hc.old t _ ht) _ rfl rfl ?_, hI.alike (hI.enter hi (.resume hf)) ⟨rfl, rfl, rfl, rfl⟩⟩
    intro u hne hu
    simpa [hne] using hu
  | wait hw => exact ⟨he, hi⟩
  | start ha => exact ⟨he.newcomer _ _, hI.alike (hI.enter hi (.start hnew ha)) ⟨rfl, rfl, rfl, rfl⟩⟩
  | @drop t r ht =>
    refine ⟨?_, hI.drop hi (hd t rfl)⟩
    rw [Machine.drop, ht]
    refine he.still rfl (fun _ _ hu => .inl hu) ?_
    intro u hu
    change (x.machine.tasks.erase t).get? u = none
    simp [hu]
  | miss ht => exact ⟨he, hi⟩
  | world hw =>
    obtain ⟨m, hm, hsame⟩ := happen_of_isWorldly hw x
    have hground := ground_of_isWorldly hw x
    rw [hm] at hground ⊢
    exact ⟨he.still hsame.nextTask (fun _ _ hu => .inl (hsame.results ▸ hu)) fun _ hu => hsame.tasks ▸ hu,
      hI.alike hi hground⟩

theorem taskPlaces (hc : x.machine.KeepsRules c places) (he : TaskPlaces c x.machine places) {e : Occurrence}
    {x' : Course} {places' : TaskId → σ} (hmove : c.Move x places e x' places') : TaskPlaces c x'.machine places' :=
  have hI : c.Upholds (fun _ _ => True) fun _ _ => True :=
    ⟨fun _ _ => trivial, fun _ _ => trivial, fun _ _ _ => trivial, fun _ _ => trivial⟩
  (hI.move hc he trivial hmove fun _ _ => trivial).1

theorem run (hI : c.Upholds Spares I) (hc : x.machine.KeepsRules c places) (he : TaskPlaces c x.machine places)
    (hi : I x places) (occurrences : List Occurrence) (ha : ∀ op, .start op ∈ occurrences → c.Admits op)
    (hd : ∀ first t later, occurrences = first ++ .drop t :: later → Spares (x.run first) t) :
    ∃ places', I (x.run occurrences) places' := by
  obtain ⟨places', -, h⟩ := Placement.run (I := fun occurrences y places =>
    (∀ first t later, occurrences = first ++ .drop t :: later → Spares (x.run first) t) →
      TaskPlaces c y.machine places ∧ I y places) hc (fun _ => ⟨he, hi⟩) (by
    intro occurrences e places places' hc ih hmove hd
    obtain ⟨he, hi⟩ := ih fun first t later heq => hd first t (later ++ [e]) (by simp [heq])
    refine hI.move hc he hi hmove ?_
    rintro t rfl
    exact hd occurrences t [] rfl) occurrences ha
  exact ⟨places', (h hd).2⟩

end Placement.Upholds

/-! ## From the beginning on -/

theorem taskPlaces_connected (c : Placement R) (o : ClientOptions) (files : FileTree) (hasProcess : Bool) (place : σ) :
    TaskPlaces c (Course.connected o files hasProcess).machine (c.connected o files hasProcess place) := by
  have hfirst : ∀ t, 3 ≤ t → c.first o t = c.phase .watching := by
    intro t ht
    match t, ht with
    | _ + 3, _ => rfl
  have hresults : (Course.connected o files hasProcess).machine.results = [] := by cases hasProcess <;> rfl
  have hnext : (Course.connected o files hasProcess).machine.nextTask =
      (Course.begin o files hasProcess).machine.nextTask + 1 := rfl
  have hle : 3 ≤ (Course.begin o files hasProcess).machine.nextTask := by
    cases hasProcess
    · exact Nat.le_refl _
    · exact Nat.le_succ _
  constructor
  · intro t ht
    rw [hnext] at ht
    constructor
    · unfold Placement.connected
      rw [Function.update_of_ne (Nat.ne_of_gt ht)]
      exact hfirst t (Nat.le_trans hle (Nat.le_of_succ_le ht))
    · rw [hresults]
      rfl
  · intro t result ht
    rw [hresults] at ht
    cases ht

/-- What is upheld, and holds of a client that is about to be connected, holds from then on. -/
theorem Placement.Upholds.run_connected (hI : c.Upholds Spares I) {o : ClientOptions} {files : FileTree}
    {hasProcess : Bool} {place : σ} (hconnecting : connecting.Keeps R place c.Fits)
    (hi : I (Course.connected o files hasProcess) (c.connected o files hasProcess place))
    (occurrences : List Occurrence) (ha : ∀ op, .start op ∈ occurrences → c.Admits op)
    (hd : ∀ first t later, occurrences = first ++ .drop t :: later →
      Spares ((Course.connected o files hasProcess).run first) t) :
    ∃ places, I ((Course.connected o files hasProcess).run occurrences) places :=
  hI.run (keepsRules_connected c o files hasProcess hconnecting) (taskPlaces_connected c o files hasProcess place) hi
    occurrences ha hd

end

end Liaison
