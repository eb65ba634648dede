import Liaison.Proofs.Session.WriteInvariant
import Liaison.Proofs.Session.ShuttingDown

/-!
# Shutting down beside one another

However many shut a session down, and whatever happens beside them, the session only goes forward. One of them at most
takes it upon itself, and so the server is asked once and told once; the others come back when the session has ended.
-/

namespace Liaison

/-! ## The stages of a session -/

namespace SessionState

def stage : SessionState → Nat
  | notStarted => 0
  | starting => 1
  | ready => 2
  | shuttingDown => 3
  | terminated => 4

variable {s : SessionState}

theorem isOver_iff : s.IsOver ↔ 3 ≤ s.stage := by
  cases s <;> simp [IsOver, stage]

theorem eq_terminated (h : 4 ≤ s.stage) : s = .terminated := by
  cases s <;> simp [stage] at h ⊢

end SessionState

namespace ShuttingDown

/-! ## What places tell -/

/-- How far a task has come that shuts the session down itself. -/
def rank : ShuttingDown → Nat
  | chosen => 1
  | asked => 2
  | told => 3
  | closing | stopped | left => 4
  | fresh | found _ | waiting | gone | elsewhere | unbound => 0

def stage : ShuttingDown → Nat
  | chosen | asked | told | closing | stopped => 3
  | left | gone => 4
  | fresh | found _ | waiting | elsewhere | unbound => 0

structure Marks (place : ShuttingDown) (d : Deed) : Prop where
  asks : d.sends? "shutdown" ≠ none → 2 ≤ place.rank
  tells : d.sends? "exit" ≠ none → 3 ≤ place.rank

namespace Turn

variable {place place' : ShuttingDown} {a : Action} {answer : a.Answer} {m m' : Machine} {t : TaskId}

theorem rank_le (h : Turn place a answer place') : place.rank ≤ place'.rank := by
  cases h with
  | tell h => rcases h with rfl | rfl <;> simp [rank]
  | close h => rcases h with rfl | rfl | rfl <;> simp [rank]
  | _ => simp [rank]

theorem sends?_enqueue (m : Message) (method : String) (ticket : Option Nat) :
    Deed.sends? method ⟨t, .enqueue m.toJson, ticket⟩ = if m.method? = some method then some t else none := by
  simp [Deed.sends?, hasMethod_toJson]

theorem sends?_of_isOrdinary (method : String) (t : TaskId) (answer : a.Answer) (ha : a.isOrdinary = true) :
    Deed.sends? method ⟨t, a, answer⟩ = none := by
  cases a <;> first | rfl | cases ha

theorem marks_self (h : Turn place a answer place') : place'.Marks ⟨t, a, answer⟩ := by
  cases h with
  | work h ha => constructor <;> simp [sends?_of_isOrdinary _ t answer ha]
  | ask => constructor <;> simp [sends?_enqueue, Message.method?, rank]
  | tell => constructor <;> simp [sends?_enqueue, Message.method?, rank]
  | other ha =>
    cases a with
    | enqueue frame =>
      have hs : frame.hasMethod "shutdown" = false := ha _ (by simp)
      have hx : frame.hasMethod "exit" = false := ha _ (by simp)
      constructor <;> simp [Deed.sends?, hs, hx]
    | _ => constructor <;> simp [Deed.sends?]
  | _ => constructor <;> simp [Deed.sends?]

theorem rank_lt_of_sends (h : Turn place a answer place') :
    (Deed.sends? "shutdown" ⟨t, a, answer⟩ ≠ none → place.rank < 2) ∧
      (Deed.sends? "exit" ⟨t, a, answer⟩ ≠ none → place.rank < 3) := by
  cases h with
  | work h ha => simp [sends?_of_isOrdinary _ t answer ha]
  | ask => simp [rank]
  | tell h => rcases h with rfl | rfl <;> simp [sends?_enqueue, Message.method?, rank]
  | other ha => simp [rank]
  | _ => simp [Deed.sends?]

theorem stage_le (h : Turn place a answer place') (hp : m.perform t a = some (answer, m')) :
    m.state.stage ≤ m'.state.stage := by
  cases a with
  | transition before next =>
    rcases transition_perform hp with ⟨rfl, hb, hn⟩ | ⟨-, -, hn⟩
    · rw [hb, hn]
      cases h with
      | choose hs => exact Nat.le_of_lt (Nat.lt_of_not_le (mt SessionState.isOver_iff.mpr hs))
      | work _ ha => cases ha
      | other ha => rcases ha with ⟨rfl, rfl⟩ | ⟨rfl, rfl⟩ <;> simp [SessionState.stage]
    · exact Nat.le_of_eq (congrArg SessionState.stage hn.symm)
  | terminate =>
    cases hp
    cases m.state <;> simp [SessionState.terminate, SessionState.stage]
  | _ =>
    have hs : m'.state = m.state := (spares_perform hp).state (by simp [Action.reach])
    exact Nat.le_of_eq (congrArg SessionState.stage hs.symm)

theorem stage_of_place (h : Turn place a answer place') (hp : m.perform t a = some (answer, m'))
    (hs : place.stage ≤ m.state.stage) : place'.stage ≤ m'.state.stage := by
  have hkept : place'.stage = place.stage → place'.stage ≤ m'.state.stage := fun he =>
    he ▸ Nat.le_trans hs (h.stage_le hp)
  cases h with
  | miss =>
    simp only [Machine.perform, Option.some.injEq, Prod.mk.injEq] at hp
    obtain ⟨hstate, rfl⟩ := hp
    simp [hstate, stage, SessionState.stage]
  | choose =>
    rcases transition_perform hp with ⟨-, -, hn⟩ | ⟨hm, -⟩
    · simp [hn, stage, SessionState.stage]
    · cases hm
  | tell h => rcases h with rfl | rfl <;> exact hkept rfl
  | close h => rcases h with rfl | rfl | rfl <;> exact hkept rfl
  | terminate =>
    cases hp
    exact Nat.le_refl 4
  | go =>
    simp only [Machine.perform] at hp
    split at hp
    · rename_i hstate
      cases hp
      simp [hstate, stage, SessionState.stage]
    · cases hp
  | find | wait | yield => exact Nat.zero_le _
  | _ => exact hkept rfl

theorem not_isOver_of_rank (h : Turn place a answer place') (hp : m.perform t a = some (answer, m'))
    (h0 : place.rank = 0) (h1 : 1 ≤ place'.rank) : ¬ m.state.IsOver := by
  cases h with
  | choose hs =>
    rcases transition_perform hp with ⟨-, hb, -⟩ | ⟨hm, -⟩
    · rwa [hb]
    · cases hm
  | work h => rcases h with rfl | rfl | rfl <;> cases h0
  | tell h => rcases h with rfl | rfl <;> cases h0
  | close h => rcases h with rfl | rfl | rfl <;> cases h0
  | kill h => rcases h with rfl | rfl <;> cases h0
  | find | wait | miss | yield | go | other => cases h1
  | _ => cases h0

end Turn

theorem Marks.mono {place place' : ShuttingDown} {d : Deed} (h : place.Marks d) (hle : place.rank ≤ place'.rank) :
    place'.Marks d :=
  ⟨fun hd => Nat.le_trans (h.asks hd) hle, fun hd => Nat.le_trans (h.tells hd) hle⟩

end ShuttingDown

/-! ## The tasks that shut a session down -/

structure ShutdownInvariant (x : Course) (places : TaskId → ShuttingDown) : Prop where
  marks : ∀ d ∈ x.history, (places d.task).Marks d
  asked : (senders "shutdown" x.history).Nodup
  told : (senders "exit" x.history).Nodup
  stage : ∀ t, (places t).stage ≤ x.machine.state.stage
  alone : ∀ t u, 1 ≤ (places t).rank → 1 ≤ (places u).rank → t = u

abbrev ShuttingDown.TaskGroup (members : List TaskId) (x : Course) (places : TaskId → ShuttingDown) : Prop :=
  Liaison.TaskGroup ShuttingDown.placement .elsewhere (· ≠ .unbound) members x places

namespace ShutdownInvariant

variable {members : List TaskId} {x x' : Course} {places places' : TaskId → ShuttingDown} {m : Machine} {t : TaskId}
  {a : Action} {answer : a.Answer}

theorem deed (h : ShutdownInvariant x places) {place : ShuttingDown}
    (hturn : ShuttingDown.Turn (places t) a answer place) (hp : x.machine.perform t a = some (answer, m))
    {tasks : Table TaskId (Routine Next)} :
    ShutdownInvariant ⟨{ m with tasks := tasks }, x.history ++ [⟨t, a, answer⟩]⟩ (Function.update places t place) := by
  have hother : ∀ u, u ≠ t → Function.update places t place u = places u := fun u hu => Function.update_of_ne hu ..
  have hforward : x.machine.state.stage ≤ m.state.stage := hturn.stage_le hp
  constructor
  case marks =>
    intro d hd
    rcases List.mem_append.mp hd with hd | hd
    · by_cases e : d.task = t
      · rw [e, Function.update_self]
        exact (e ▸ h.marks d hd).mono hturn.rank_le
      · rw [hother _ e]
        exact h.marks d hd
    · rw [List.mem_singleton.mp hd, Function.update_self]
      exact hturn.marks_self
  case asked =>
    exact nodup_senders_concat (fun t => (places t).rank) h.asked (fun d hd => (h.marks d hd).asks)
      hturn.rank_lt_of_sends.1
  case told =>
    exact nodup_senders_concat (fun t => (places t).rank) h.told (fun d hd => (h.marks d hd).tells)
      hturn.rank_lt_of_sends.2
  case stage =>
    intro u
    by_cases e : u = t
    · rw [e, Function.update_self]
      have hplace : place.stage ≤ m.state.stage := hturn.stage_of_place hp (h.stage t)
      exact hplace
    · rw [hother u e]
      exact Nat.le_trans (h.stage u) hforward
  case alone =>
    -- Who takes it upon itself now finds that nobody has done so before.
    have hfirst : ∀ u, u ≠ t → 1 ≤ place.rank → 1 ≤ (places u).rank → t = u := by
      intro u hu hplace hrank
      by_cases h0 : (places t).rank = 0
      · have hover : x.machine.state.IsOver := SessionState.isOver_iff.mpr (by
          have hstage := h.stage u
          generalize places u = other at hrank hstage
          cases other <;> first | exact hstage | exact Nat.le_trans (by decide) hstage | cases hrank)
        exact absurd hover (hturn.not_isOver_of_rank hp h0 hplace)
      · exact h.alone t u (Nat.pos_of_ne_zero h0) hrank
    intro u v hu hv
    by_cases eu : u = t
    · by_cases ev : v = t
      · rw [eu, ev]
      · rw [eu, Function.update_self] at hu
        rw [hother v ev] at hv
        rw [eu]
        exact hfirst v ev hu hv
    · by_cases ev : v = t
      · rw [hother u eu] at hu
        rw [ev, Function.update_self] at hv
        rw [ev]
        exact (hfirst u eu hv hu).symm
      · rw [hother u eu] at hu
        rw [hother v ev] at hv
        exact h.alone u v hu hv

theorem change (hm : ShuttingDown.TaskGroup members x places) (h : ShutdownInvariant x places)
    (hc : ShuttingDown.placement.Change x places x' places') :
    ShutdownInvariant x' places' ∧ x.machine.state.stage ≤ x'.machine.state.stage := by
  cases hc with
  | @deed t a answer m tasks ha hp =>
    have hturn := ShuttingDown.turn_after ha (hm.counts t) answer
    have hforward : x.machine.state.stage ≤ m.state.stage := hturn.stage_le hp
    exact ⟨h.deed hturn hp, hforward⟩
  | @newcomer op ha =>
    have hrank : (ShuttingDown.placement.operation op).rank = 0 := by cases op <;> rfl
    have hstage : (ShuttingDown.placement.operation op).stage = 0 := by cases op <;> rfl
    refine ⟨⟨?_, h.asked, h.told, ?_, ?_⟩, Nat.le_refl _⟩
    · intro d hd
      rw [Function.update_of_ne (Nat.ne_of_lt (hm.old d hd))]
      exact h.marks d hd
    · intro t
      by_cases e : t = x.machine.nextTask
      · rw [e, Function.update_self, hstage]
        exact Nat.zero_le _
      · rw [Function.update_of_ne e]
        exact h.stage t
    · have hold : ∀ t, 1 ≤ (Function.update places x.machine.nextTask (ShuttingDown.placement.operation op) t).rank →
          1 ≤ (places t).rank := by
        intro t ht
        by_cases e : t = x.machine.nextTask
        · rw [e, Function.update_self, hrank] at ht
          cases ht
        · rwa [Function.update_of_ne e] at ht
      exact fun t u ht hu => h.alone t u (hold t ht) (hold u hu)
  | still hs ho => exact ⟨⟨h.marks, h.asked, h.told, hs.symm ▸ h.stage, h.alone⟩, hs.symm ▸ Nat.le_refl _⟩

theorem eq_of_sends (h : ShutdownInvariant x places) {method : String}
    (hd : ∀ d ∈ x.history, d.sends? method ≠ none → 1 ≤ (places d.task).rank) :
    ∀ t ∈ senders method x.history, ∀ u ∈ senders method x.history, t = u := by
  have hrank : ∀ t ∈ senders method x.history, 1 ≤ (places t).rank := by
    intro t ht
    obtain ⟨d, hmem, hs⟩ := List.mem_filterMap.mp ht
    rw [task_of_sends? hs]
    exact hd d hmem (by simp [hs])
  exact fun t ht u hu => h.alone t u (hrank t ht) (hrank u hu)

end ShutdownInvariant

/-! ## The beginning -/

/-- What connects a client: the session is started while those that serve it are at work already. -/
def connecting : Routine Next := do
  let _ ← act (.transition .notStarted .starting)
  return .over

def Course.connected (o : ClientOptions) (files : FileTree) (hasProcess : Bool) : Course :=
  ⟨{ (Course.begin o files hasProcess).machine with state := .notStarted }.addTask connecting, []⟩

/-- Where the tasks begin, if the one that connects the client begins at the given place. -/
def Placement.connected {σ : Type} {R : Rules σ} (c : Placement R) (o : ClientOptions) (files : FileTree)
    (hasProcess : Bool) (place : σ) : TaskId → σ :=
  Function.update (c.first o) (Course.begin o files hasProcess).machine.nextTask place

/-- If those that serve a session all begin at one place, so does everybody. -/
theorem Placement.connected_eq {σ : Type} {R : Rules σ} {c : Placement R} {place : σ} (hw : c.phase .writing = place)
    (hr : c.phase .reading = place) (hd : ∀ rootUri sequence, c.phase (.dispatching rootUri sequence) = place)
    (hp : c.phase .watching = place) (o : ClientOptions) (files : FileTree) (hasProcess : Bool) (t : TaskId) :
    c.connected o files hasProcess place t = place := by
  have hfirst : c.first o t = place := by
    match t with
    | 0 => exact hw
    | 1 => exact hr
    | 2 => exact hd _ _
    | _ + 3 => exact hp
  unfold Placement.connected
  by_cases e : t = (Course.begin o files hasProcess).machine.nextTask
  · rw [e, Function.update_self]
  · rw [Function.update_of_ne e, hfirst]

theorem keepsRules_connected {σ : Type} {R : Rules σ} (c : Placement R) (o : ClientOptions) (files : FileTree)
    (hasProcess : Bool) {place : σ} (h : connecting.Keeps R place c.Fits) :
    (Course.connected o files hasProcess).machine.KeepsRules c (c.connected o files hasProcess place) := by
  have hbegin : { (Course.begin o files hasProcess).machine with state := .notStarted }.KeepsRules c (c.first o) :=
    (keepsRules_begin c o files hasProcess).congr rfl rfl
  exact hbegin.addTask h

theorem writeInvariant_connected (o : ClientOptions) (files : FileTree) (hasProcess : Bool) :
    WriteInvariant [] (Course.connected o files hasProcess)
      (Writing.placement.connected o files hasProcess .elsewhere) := by
  have hfirst : ∀ t, t ≠ 0 → Writing.placement.first o t = .elsewhere :=
    (writeInvariant_begin o files hasProcess).others
  have hothers : ∀ t, t ≠ 0 → Writing.placement.connected o files hasProcess .elsewhere t = .elsewhere := by
    intro t ht
    unfold Placement.connected
    by_cases e : t = (Course.begin o files hasProcess).machine.nextTask
    · rw [e, Function.update_self]
    · rw [Function.update_of_ne e]
      exact hfirst t ht
  have hconnected : ∀ x : Course, Books x .idle → 0 < x.machine.nextTask → x.machine.tasks.get? 0 ≠ none →
      Writing.placement.connected o files hasProcess .elsewhere 0 = .idle →
        WriteInvariant [] x (Writing.placement.connected o files hasProcess .elsewhere) :=
    fun x hbooks hn ht hidle => ⟨hidle ▸ hbooks, hothers, hn, fun hnone => absurd hnone ht⟩
  cases hasProcess with
  | false => exact hconnected _ (books_blank rfl rfl rfl) (show 0 < 4 by decide) (Option.some_ne_none _) rfl
  | true => exact hconnected _ (books_blank rfl rfl rfl) (show 0 < 5 by decide) (Option.some_ne_none _) rfl

theorem writeInvariant_run_connected (o : ClientOptions) (files : FileTree) (hasProcess : Bool)
    (occurrences : List Occurrence) :
    ∃ places, WriteInvariant occurrences ((Course.connected o files hasProcess).run occurrences) places := by
  have hconnecting : connecting.Keeps Writing.rules .elsewhere Writing.placement.Fits :=
    (Routine.calm_act (Writing.reserves_elsewhere _ (by simp [Action.service?]) (by simp))).keeps_bind fun _ => .inr rfl
  obtain ⟨places, -, h⟩ := WriteInvariant.run (keepsRules_connected Writing.placement o files hasProcess hconnecting)
    (writeInvariant_connected o files hasProcess) occurrences
  exact ⟨places, h⟩

theorem frames_prefix_connected (o : ClientOptions) (files : FileTree) (hasProcess : Bool)
    (occurrences : List Occurrence) :
    ((Course.connected o files hasProcess).run occurrences).machine.outlet.frames <+:
      handedIn ((Course.connected o files hasProcess).run occurrences).history := by
  obtain ⟨_, h⟩ := writeInvariant_run_connected o files hasProcess occurrences
  exact h.frames_isPrefix

theorem shuttingDown_connected_eq (o : ClientOptions) (files : FileTree) (hasProcess : Bool) (t : TaskId) :
    ShuttingDown.placement.connected o files hasProcess .elsewhere t = .elsewhere :=
  Placement.connected_eq rfl rfl (fun _ _ => rfl) rfl o files hasProcess t

theorem shutdownInvariant_connected (o : ClientOptions) (files : FileTree) (hasProcess : Bool) :
    ShuttingDown.TaskGroup [] (Course.connected o files hasProcess)
      (ShuttingDown.placement.connected o files hasProcess .elsewhere) ∧
      ShutdownInvariant (Course.connected o files hasProcess)
        (ShuttingDown.placement.connected o files hasProcess .elsewhere) := by
  have hplace := shuttingDown_connected_eq o files hasProcess
  have hresults : (Course.connected o files hasProcess).machine.results = [] := by cases hasProcess <;> rfl
  have hhistory : (Course.connected o files hasProcess).history = [] := rfl
  constructor
  · constructor <;> simp [hplace, hresults, hhistory]
  · constructor <;> simp [hplace, hhistory, senders, ShuttingDown.stage, ShuttingDown.rank]

/-! ## Whole runs -/

/-- The server was asked and told once at most, and a task that shuts the session down returns only when the session
has ended. -/
structure Course.ShutsDownOnce (x : Course) (tasks : List TaskId) : Prop where
  asked : (x.machine.outlet.frames.filter (Json.hasMethod "shutdown")).length ≤ 1
  told : (x.machine.outlet.frames.filter (Json.hasMethod "exit")).length ≤ 1
  ended : ∀ t ∈ tasks, (x.machine.results.get? t).isSome = true → x.machine.state = .terminated

theorem ShutdownInvariant.shutsDownOnce {members : List TaskId} {x : Course} {places : TaskId → ShuttingDown}
    (hm : ShuttingDown.TaskGroup members x places) (h : ShutdownInvariant x places)
    (hw : x.machine.outlet.frames <+: handedIn x.history) : x.ShutsDownOnce members where
  asked := length_filter_le_one hw h.asked (h.eq_of_sends fun d hd hs => Nat.le_of_succ_le ((h.marks d hd).asks hs))
  told := length_filter_le_one hw h.told
    (h.eq_of_sends fun d hd hs => Nat.le_trans (by decide) ((h.marks d hd).tells hs))
  ended := by
    intro t ht hsome
    obtain ⟨result, hresult⟩ := Option.isSome_iff_exists.mp hsome
    have hfits := (hm.returned t result hresult).2
    have hstage := h.stage t
    have hmember := (hm.members t).mpr ht
    have hcounts := hm.counts t
    apply SessionState.eq_terminated
    rcases hfits with he | he | he | he
    · rwa [he] at hstage
    · rwa [he] at hstage
    · exact absurd he hmember
    · exact absurd he hcounts

/-- However many shut a session down, and whatever happens beside them: the session only goes forward, the server is
asked once and told once at most, and nobody returns before the session has ended. -/
theorem concurrent_shutdowns_ask_once (o : ClientOptions) (files : FileTree) (hasProcess : Bool)
    (occurrences later : List Occurrence)
    (h : ∀ op, .start op ∈ occurrences ++ later → op ≠ .shutdown → op.Avoids ["shutdown", "exit"]) :
    let x := Course.connected o files hasProcess
    (x.run occurrences).machine.state.stage ≤ (x.run (occurrences ++ later)).machine.state.stage ∧
      (x.run (occurrences ++ later)).ShutsDownOnce (x.tasksFor Operation.isShutdown (occurrences ++ later)) := by
  intro x
  have hallows : ShuttingDown.elsewhere.Allows (.transition .notStarted .starting) := .inl ⟨rfl, rfl⟩
  have hconnecting : connecting.Keeps ShuttingDown.rules .elsewhere ShuttingDown.placement.Fits :=
    (Routine.calm_act (ShuttingDown.tolerates_elsewhere hallows)).keeps_bind fun _ => .inr (.inr (.inl rfl))
  have hw := frames_prefix_connected o files hasProcess (occurrences ++ later)
  obtain ⟨hm, hx⟩ := shutdownInvariant_connected o files hasProcess
  obtain ⟨places, hc, hm, hx⟩ := TaskGroup.run (I := ShutdownInvariant) ShuttingDown.confines
    (keepsRules_connected ShuttingDown.placement o files hasProcess hconnecting) hm hx
    (fun _ _ _ _ _ hm hx hchange => (hx.change hm hchange).1) occurrences
    fun op hop => h op (List.mem_append_left _ hop)
  -- From here on the session is compared with what it is now.
  obtain ⟨places', -, hm', hx', hle⟩ := TaskGroup.run
    (I := fun y places => ShutdownInvariant y places ∧ (x.run occurrences).machine.state.stage ≤ y.machine.state.stage)
    ShuttingDown.confines hc hm ⟨hx, Nat.le_refl _⟩ (by
      rintro members y places y' places' hm ⟨hx, hle⟩ hchange
      obtain ⟨hx', hforward⟩ := hx.change hm hchange
      exact ⟨hx', Nat.le_trans hle hforward⟩) later fun op hop => h op (List.mem_append_right _ hop)
  rw [List.nil_append, ← tasksFor_append] at hm'
  rw [← Course.run_append] at hm' hx' hle
  exact ⟨hle, hx'.shutsDownOnce hm' hw⟩

def shutdownTwice : List Occurrence :=
  [List.replicate 2 (.step 3), List.replicate 2 (.start .shutdown), List.replicate 6 (.step 4), [.step 5],
    List.replicate 4 (.step 0), [.step 4, .receive (Frame.write (.obj [("id", .int 1), ("result", .null)]))],
    List.replicate 3 (.step 1), List.replicate 2 (.step 4), List.replicate 4 (.step 0), List.replicate 7 (.step 4),
    List.replicate 2 (.step 5)].flatten

theorem concurrent_shutdowns_ask_once_two :
    let x := Course.connected ⟨"rust", "rust", [0x2F, 0x77], none, 1, 1, .null⟩ ⟨[], []⟩ false
    x.tasksFor Operation.isShutdown shutdownTwice = [4, 5] ∧
      ((x.run shutdownTwice).machine.results.get? 4).isSome = true ∧
      ((x.run shutdownTwice).machine.results.get? 5).isSome = true ∧
      (x.run shutdownTwice).machine.outlet.frames.countP (Json.hasMethod "shutdown") = 1 ∧
      (x.run shutdownTwice).ShutsDownOnce (x.tasksFor Operation.isShutdown shutdownTwice) := by
  have h : ∀ op, .start op ∈ shutdownTwice ++ [] → op ≠ .shutdown → op.Avoids ["shutdown", "exit"] := by
    intro op hop hne
    exact absurd (by simpa [shutdownTwice] using hop) hne
  refine ⟨by decide +kernel, by decide +kernel, by decide +kernel, by decide +kernel, ?_⟩
  simpa using (concurrent_shutdowns_ask_once _ _ false shutdownTwice [] h).2

end Liaison
