import Liaison.Proofs.Session.AfterShutdown

/-!
# Outliving the session

Who takes it upon himself to shut the session down waits for the process of the server, and who watches over the process
ends the session after it. But the session also ends when its streams or a handshake fail, and then nobody waits
for the process: it may outlive the session, and everybody who shuts the session down from then on.
-/

namespace Liaison

def Machine.HasExited (m : Machine) : Prop :=
  ∃ status, m.process.map (·.published) = some (some status)

/-- Why a session ends while nothing is known of the process: the stream from the server ended or failed, a write
failed, or somebody wants the process to be killed. -/
inductive Deed.Severs : Deed → Prop
  | ended {t : TaskId} : Severs ⟨t, .nextFrame, .ended⟩
  | fault {t : TaskId} {cut : Frame.Cut} : Severs ⟨t, .nextFrame, .fault cut⟩
  | failed {t : TaskId} {ticket : Nat} {reason : String} : Severs ⟨t, .giveReceipt ticket (.failed reason), ()⟩
  | kill {t : TaskId} : Severs ⟨t, .kill, ()⟩

inductive Deed.Entitles : Deed → Prop
  | exit {t : TaskId} {status : ExitStatus} : Entitles ⟨t, .publishExit status, ()⟩
  | takeOver {t : TaskId} {before : SessionState} : Entitles ⟨t, .transition before .shuttingDown, true⟩
  | sever {d : Deed} (h : d.Severs) : Entitles d

/-! ## The rules of ending -/

inductive Severing where
  | whole
  | entitled

namespace Severing

def Allows : Severing → Action → Prop
  | whole, .terminate => False
  | _, .transition _ next => next ≠ .terminated
  | _, _ => True

def after : Severing → (a : Action) → a.Answer → Severing
  | whole, .publishExit _, _ => entitled
  | whole, .transition _ .shuttingDown, true => entitled
  | whole, .nextFrame, .ended => entitled
  | whole, .nextFrame, .fault _ => entitled
  | whole, .giveReceipt _ (.failed _), _ => entitled
  | whole, .kill, _ => entitled
  | place, _, _ => place

def Fits : Next → Severing → Prop :=
  fun _ _ => True

def rules : Rules Severing :=
  ⟨Allows, after⟩

theorem tolerates_entitled {a : Action} (h : ∀ before, a ≠ .transition before .terminated) :
    rules.Tolerates entitled a := by
  constructor
  · cases a with
    | transition before next =>
      rintro rfl
      exact h before rfl
    | _ => exact trivial
  · intro answer
    cases a <;> rfl

theorem isEasy_entitled : rules.IsEasy entitled := by
  intro a ha
  apply tolerates_entitled
  rintro before rfl
  cases ha

theorem ends_entitled : rules.Ends entitled :=
  ⟨tolerates_entitled (by simp), fun _ => tolerates_entitled (by simp), tolerates_entitled (by simp),
    tolerates_entitled (by simp)⟩

theorem speaks_entitled (method : String) : rules.Speaks entitled method :=
  ⟨fun _ _ => tolerates_entitled (by simp), fun _ => tolerates_entitled (by simp)⟩

theorem isEasy_whole : rules.IsEasy whole := by
  intro a ha
  cases a <;> first | exact ⟨trivial, fun _ => rfl⟩ | cases ha

theorem tolerates_enqueue (frame : Json) : rules.Tolerates whole (.enqueue frame) :=
  ⟨trivial, fun _ => rfl⟩

theorem tolerates_close : rules.Tolerates whole .enqueueClose :=
  ⟨trivial, fun _ => rfl⟩

theorem speaks_whole (method : String) : rules.Speaks whole method :=
  ⟨fun _ _ => tolerates_enqueue _, fun _ => tolerates_enqueue _⟩

theorem keeps_of_stays {place : Severing} {service : Option Service} {r : Routine Next}
    (h : rules.Stays place service r) : r.Keeps rules place Fits :=
  h.mono fun _ _ _ => trivial

/-! ### Handshakes -/

theorem keeps_orAbort {α : Type} (failure : String) {r : Attempt α} (hr : r.run.Calm rules whole) :
    (orAbort failure r).run.Keeps rules whole fun result place => (∃ a, result = .ok a) → place = whole := by
  unfold orAbort
  apply Attempt.keeps_outcome_bind
  apply hr.mono
  rintro result _ rfl
  cases result with
  | ok a => exact fun _ => rfl
  | error e =>
    have habort : ∀ reason, (abort reason).Keeps rules whole fun _ _ => True := fun reason =>
      ⟨trivial, fun _ => ⟨trivial, fun _ => ⟨trivial, fun _ => ⟨trivial, fun _ => trivial⟩⟩⟩⟩
    refine Attempt.keeps_bind.mpr (Routine.keeps_bind.mpr ((habort _).mono ?_))
    rintro _ _ _ ⟨a, he⟩
    cases he

theorem keeps_greet (o : ClientOptions) (rootUri : String) :
    (greet o rootUri).run.Keeps rules whole fun _ _ => True := by
  unfold greet
  apply Attempt.keeps_bind.mpr
  apply (keeps_orAbort _ (calm_call isEasy_whole.isPlain (speaks_whole _) _ _)).mono
  intro result place hplace
  cases result with
  | error e => exact trivial
  | ok result =>
    rw [hplace ⟨result, rfl⟩]
    refine Attempt.keeps_bind.mpr ⟨trivial, fun _ => ?_⟩
    refine Attempt.keeps_bind.mpr ⟨trivial, fun _ => ?_⟩
    apply Attempt.keeps_bind.mpr
    apply (keeps_orAbort _ (calm_notify isEasy_whole.isPlain (speaks_whole _) _)).mono
    intro greeted place hplace
    cases greeted with
    | error e => exact trivial
    | ok _ =>
      rw [hplace ⟨(), rfl⟩]
      refine Attempt.keeps_bind.mpr ⟨SessionState.noConfusion, fun moved => ?_⟩
      cases moved <;> exact trivial

/-! ### Services -/

theorem keeps_writing : writing.Keeps rules whole Fits := by
  refine ⟨trivial, fun errand => ?_⟩
  cases errand with
  | close => exact ⟨trivial, fun _ => ⟨trivial, fun _ => trivial⟩⟩
  | send frame ticket =>
    refine ⟨trivial, fun result => ?_⟩
    cases result with
    | ok _ => exact ⟨trivial, fun _ => trivial⟩
    | error reason =>
      exact ⟨trivial, fun _ => ⟨trivial, fun _ => ⟨trivial, fun _ => ⟨trivial, fun _ => trivial⟩⟩⟩⟩

theorem keeps_reading : reading.Keeps rules whole Fits := by
  refine ⟨trivial, fun event => ?_⟩
  cases event with
  | frame v =>
    have hdeliver : (deliver (.ofFrame v)).Keeps rules whole fun _ _ => True := by
      cases Route.ofFrame v with
      | reply id reply => exact ⟨trivial, fun _ => trivial⟩
      | forward inbound => exact ⟨trivial, fun _ => trivial⟩
      | discard => exact trivial
    change Routine.Keeps rules (deliver (.ofFrame v) >>= fun _ => pure (.resume .reading)) whole Fits
    exact Routine.keeps_bind.mpr (hdeliver.mono fun _ _ _ => trivial)
  | malformed flaw => exact ⟨trivial, fun _ => trivial⟩
  | ended => exact ⟨trivial, fun _ => ⟨trivial, fun _ => trivial⟩⟩
  | fault cut => exact ⟨trivial, fun _ => ⟨trivial, fun _ => trivial⟩⟩

theorem keeps_watching : watching.Keeps rules whole Fits :=
  ⟨trivial, fun _ => ⟨trivial, fun _ => ⟨trivial, fun _ => ⟨trivial, fun _ => trivial⟩⟩⟩⟩

theorem serves_dispatcher : rules.Serves whole .dispatcher := by
  intro a ha
  cases a <;> first | exact ⟨trivial, fun _ => rfl⟩ | cases ha

theorem keeps_phase (p : Phase) : p.routine.Keeps rules whole Fits := by
  cases p with
  | writing => exact keeps_writing
  | reading => exact keeps_reading
  | dispatching rootUri sequence =>
    exact keeps_of_stays (stays_dispatching serves_dispatcher (fun _ _ => ⟨trivial, fun _ => rfl⟩) rootUri sequence)
  | watching => exact keeps_watching
  | answering m => exact keeps_of_stays (stays_answering isEasy_whole.isPlain (tolerates_enqueue _))
  | awaitingDiagnostics uri after seen limit =>
    exact keeps_of_stays (stays_awaitingDiagnostics isEasy_whole.isPlain uri after seen limit)

theorem keeps_operation (o : ClientOptions) (op : Operation) : (op.routine o).Keeps rules whole Fits := by
  by_cases hb : op = .handshake
  · subst hb
    have hhandshake := keeps_handshake isEasy_whole.isPlain o (keeps_greet o) fun _ => trivial
    exact Routine.keeps_bind.mpr (hhandshake.mono fun _ _ _ => trivial)
  · by_cases he : op = .shutdown
    · subst he
      have hshutdown := keeps_shutdown isEasy_entitled.isPlain isEasy_whole.isPlain ends_entitled (speaks_entitled _)
        (speaks_entitled _) (fun _ => SessionState.noConfusion) fun _ moved => by cases moved <;> rfl
      exact Routine.keeps_bind.mpr (hshutdown.mono fun _ _ _ => trivial)
    · exact keeps_of_stays (stays_operation isEasy_whole tolerates_close o hb he fun method _ => speaks_whole method)

def placement : Placement rules where
  Admits _ := True
  operation _ := whole
  phase _ := whole
  Fits := Fits
  keeps_operation o op _ := keeps_operation o op
  keeps_phase := keeps_phase

end Severing

/-! ## What is known of the process -/

section

variable {m m' : Machine} {t : TaskId} {a : Action} {answer : a.Answer}

theorem published_perform (h : m.perform t a = some (answer, m')) :
    m'.process.map (·.published) = m.process.map (·.published) ∨
      ∃ status, a = .publishExit status ∧ m'.process.map (·.published) = m.process.map fun _ => some status := by
  rcases process_perform h with he | ⟨-, he⟩ | ⟨-, he⟩ | ⟨status, ha, he⟩
  · exact .inl (congrArg _ he)
  · rw [he]
    exact .inl (Option.map_map ..)
  · rw [he]
    exact .inl (Option.map_map ..)
  · rw [he]
    exact .inr ⟨status, ha, Option.map_map ..⟩

theorem isSome_perform (h : m.perform t a = some (answer, m'))
    (hm : (m.process.map (·.published)).isSome = true) : (m'.process.map (·.published)).isSome = true := by
  rcases published_perform h with he | ⟨status, -, he⟩
  · rwa [he]
  · simpa [he] using hm

theorem hasExited_perform (h : m.perform t a = some (answer, m')) (hm : m.HasExited) : m'.HasExited := by
  obtain ⟨status, hstatus⟩ := hm
  rcases published_perform h with he | ⟨status', -, he⟩
  · exact ⟨status, he.trans hstatus⟩
  · obtain ⟨p, hp, -⟩ := Option.map_eq_some_iff.mp hstatus
    exact ⟨status', by rw [he, hp]; rfl⟩

theorem hasExited_publishExit {status : ExitStatus} (h : m.perform t (.publishExit status) = some ((), m'))
    (hm : (m.process.map (·.published)).isSome = true) : m'.HasExited := by
  obtain ⟨published, hpublished⟩ := Option.isSome_iff_exists.mp hm
  obtain ⟨p, hp, -⟩ := Option.map_eq_some_iff.mp hpublished
  cases h
  exact ⟨status, by simp [hp]⟩

/-- Who waits without a limit, or is told so, waits until the end of the process is known. -/
theorem hasExited_awaitExit {limit : Option Nat} {ended : Bool}
    (h : m.perform t (.awaitExit limit) = some (ended, m')) (he : limit = none ∨ ended = true)
    (hm : (m.process.map (·.published)).isSome = true) : m'.HasExited := by
  obtain ⟨published, hpublished⟩ := Option.isSome_iff_exists.mp hm
  obtain ⟨p, hp, rfl⟩ := Option.map_eq_some_iff.mp hpublished
  obtain ⟨ended', hawait, heq⟩ := Option.map_eq_some_iff.mp h
  cases heq
  have hsome : p.published.isSome = true := by
    by_contra hnone
    rw [Machine.awaitExit, hp, if_neg (by simpa using hnone)] at hawait
    rcases he with rfl | rfl
    · simp [Machine.isOver] at hawait
    · split at hawait <;> cases hawait
  obtain ⟨status, hstatus⟩ := Option.isSome_iff_exists.mp hsome
  exact ⟨status, by simp [hp, hstatus]⟩

end

structure Severed (x : Course) (places : TaskId → Severing) : Prop where
  present : (x.machine.process.map (·.published)).isSome = true
  exited : ∀ t status, ⟨t, .publishExit status, ()⟩ ∈ x.history → x.machine.HasExited
  waited : ∀ t limit ended, ⟨t, .awaitExit limit, ended⟩ ∈ x.history → limit = none ∨ ended = true →
    x.machine.HasExited
  entitled : ∀ t, places t = .entitled → ∃ d ∈ x.history, d.task = t ∧ d.Entitles
  ended : ∀ t, ⟨t, .terminate, ()⟩ ∈ x.history → ∃ d ∈ x.history, d.task = t ∧ d.Entitles
  terminated : x.machine.state = .terminated → ∃ t, ⟨t, .terminate, ()⟩ ∈ x.history

namespace Severed

variable {x : Course} {places : TaskId → Severing} {t : TaskId} {a : Action} {answer : a.Answer} {m : Machine}

theorem entitles_of_after (hs : (places t).after a answer = .entitled) :
    places t = .entitled ∨ Deed.Entitles ⟨t, a, answer⟩ := by
  cases hplace : places t with
  | entitled => exact .inl rfl
  | whole =>
    right
    rw [hplace] at hs
    cases a with
    | publishExit status => exact .exit
    | transition before next =>
      cases next <;> cases answer <;> first | exact .takeOver | cases hs
    | nextFrame =>
      cases answer with
      | ended => exact .sever .ended
      | fault cut => exact .sever .fault
      | _ => cases hs
    | giveReceipt ticket receipt =>
      cases receipt with
      | failed reason => exact .sever .failed
      | _ => cases hs
    | kill => exact .sever .kill
    | _ => cases hs

theorem entitled_after (h : Severed x places) (hs : (places t).after a answer = .entitled) :
    ∃ d ∈ x.history ++ [⟨t, a, answer⟩], d.task = t ∧ d.Entitles := by
  rcases entitles_of_after hs with hplace | hd
  · obtain ⟨d, hmem, hd⟩ := h.entitled t hplace
    exact ⟨d, List.mem_append_left _ hmem, hd⟩
  · exact ⟨_, by simp, rfl, hd⟩

theorem terminated_after (h : Severed x places) (ha : (places t).Allows a)
    (hp : x.machine.perform t a = some (answer, m)) (hm : m.state = .terminated) :
    ∃ u, ⟨u, .terminate, ()⟩ ∈ x.history ++ [⟨t, a, answer⟩] := by
  have hold : x.machine.state = .terminated → ∃ u, ⟨u, .terminate, ()⟩ ∈ x.history ++ [⟨t, a, answer⟩] := by
    intro hs
    obtain ⟨u, hu⟩ := h.terminated hs
    exact ⟨u, List.mem_append_left _ hu⟩
  cases a with
  | terminate => exact ⟨t, by simp⟩
  | transition before next =>
    rcases transition_perform hp with ⟨-, -, hs⟩ | ⟨-, -, hs⟩
    · have hnext : next ≠ .terminated := by
        cases hplace : places t <;> rw [hplace] at ha <;> exact ha
      exact absurd (hs ▸ hm) hnext
    · exact hold (hs ▸ hm)
  | _ => exact hold ((spares_perform hp).state (by simp [Action.reach]) ▸ hm)

theorem act (h : Severed x places) (ha : (places t).Allows a) (hp : x.machine.perform t a = some (answer, m)) :
    Severed ⟨m, x.history ++ [⟨t, a, answer⟩]⟩ (Function.update places t ((places t).after a answer)) := by
  constructor
  case present => exact isSome_perform hp h.present
  case exited =>
    intro u status hmem
    rcases List.mem_append.mp hmem with hmem | hmem
    · exact hasExited_perform hp (h.exited u status hmem)
    · cases List.mem_singleton.mp hmem
      exact hasExited_publishExit hp h.present
  case waited =>
    intro u limit ended hmem he
    rcases List.mem_append.mp hmem with hmem | hmem
    · exact hasExited_perform hp (h.waited u limit ended hmem he)
    · cases List.mem_singleton.mp hmem
      exact hasExited_awaitExit hp he h.present
  case entitled =>
    intro u hu
    by_cases e : u = t
    · subst e
      rw [Function.update_self] at hu
      exact h.entitled_after hu
    · rw [Function.update_of_ne e] at hu
      obtain ⟨d, hmem, hd⟩ := h.entitled u hu
      exact ⟨d, List.mem_append_left _ hmem, hd⟩
  case ended =>
    intro u hmem
    have hold : (∃ d ∈ x.history, d.task = u ∧ d.Entitles) → ∃ d ∈ x.history ++ [⟨t, a, answer⟩],
        d.task = u ∧ d.Entitles := by
      intro hd
      obtain ⟨d, hmem, hd⟩ := hd
      exact ⟨d, List.mem_append_left _ hmem, hd⟩
    rcases List.mem_append.mp hmem with hmem | hmem
    · exact hold (h.ended u hmem)
    · cases List.mem_singleton.mp hmem
      apply hold
      apply h.entitled
      -- Who is whole does not end the session.
      cases hplace : places t with
      | entitled => rfl
      | whole =>
        rw [hplace] at ha
        exact ha.elim
  case terminated => exact h.terminated_after ha hp

theorem congr (h : Severed x places) (hs : m.state = x.machine.state)
    (hp : m.process.map (·.published) = x.machine.process.map (·.published)) : Severed ⟨m, x.history⟩ places := by
  have hexited : x.machine.HasExited → m.HasExited := by
    intro hx
    obtain ⟨status, hstatus⟩ := hx
    exact ⟨status, hp.trans hstatus⟩
  refine ⟨hp ▸ h.present, ?_, ?_, h.entitled, h.ended, fun hm => h.terminated (hs ▸ hm)⟩
  · exact fun t status hmem => hexited (h.exited t status hmem)
  · exact fun t limit ended hmem he => hexited (h.waited t limit ended hmem he)

theorem upholds : Severing.placement.Upholds (fun _ _ => True) Severed where
  alike h hm := h.congr hm.state hm.published
  enter := by
    intro x places t s h hs
    refine ⟨h.present, h.exited, h.waited, ?_, h.ended, h.terminated⟩
    intro u hu
    by_cases e : u = t
    · subst e
      rw [Function.update_self] at hu
      cases hs <;> cases hu
    · rw [Function.update_of_ne e] at hu
      exact h.entitled u hu
  act h ha hp := h.act ha hp
  drop h _ := h.congr (drop_eq _ _).1 (congrArg _ (drop_eq _ _).2.2)

end Severed

theorem severed_connected (o : ClientOptions) (files : FileTree) :
    Severed (Course.connected o files true) (Severing.placement.connected o files true .whole) := by
  have hplace : ∀ t, Severing.placement.connected o files true .whole t = .whole :=
    Placement.connected_eq rfl rfl (fun _ _ => rfl) rfl o files true
  have hhistory : (Course.connected o files true).history = [] := rfl
  have hstate : (Course.connected o files true).machine.state = .notStarted := rfl
  have hprocess : (Course.connected o files true).machine.process = some .running := rfl
  constructor <;> simp [hplace, hhistory, hstate, hprocess]

/-! ## Shutting down -/

structure Awaited (x : Course) (places : TaskId → ShuttingDown) : Prop where
  bound : ∀ t before, ⟨t, .transition before .shuttingDown, true⟩ ∈ x.history → 1 ≤ (places t).rank
  stopped : ∀ t, places t = .stopped ∨ places t = .left →
    ∃ limit ended, ⟨t, .awaitExit limit, ended⟩ ∈ x.history ∧ (limit = none ∨ ended = true)
  ended : ∀ t, ⟨t, .terminate, ()⟩ ∈ x.history → places t = .left ∨ places t = .elsewhere

namespace ShuttingDown.Turn

variable {place place' : ShuttingDown} {a : Action} {answer : a.Answer} {t : TaskId}

theorem rank_of_takesOver {before : SessionState} {moved : Bool}
    (h : Turn place (.transition before .shuttingDown) moved place') (hm : moved = true) : 1 ≤ place'.rank := by
  cases h with
  | choose => exact Nat.le_refl 1
  | yield => cases hm
  | work _ ha => cases ha
  | other ha => rcases ha with ⟨-, ha⟩ | ⟨-, ha⟩ <;> cases ha

theorem of_terminate (h : Turn place .terminate () place') : place' = .left ∨ place' = .elsewhere := by
  cases h with
  | terminate => exact .inl rfl
  | work _ ha => cases ha
  | other ha => exact .inr rfl

theorem of_ended (h : Turn place a answer place') (hs : place = .left ∨ place = .elsewhere) :
    place' = .left ∨ place' = .elsewhere := by
  cases h with
  | other h => exact .inr rfl
  | work h | close h => rcases h with rfl | rfl | rfl <;> rcases hs with hs | hs <;> cases hs
  | tell h | kill h => rcases h with rfl | rfl <;> rcases hs with hs | hs <;> cases hs
  | _ => rcases hs with hs | hs <;> cases hs

theorem of_stopped (t : TaskId) (h : Turn place a answer place') (hs : place' = .stopped ∨ place' = .left) :
    place = .stopped ∨ place = .left ∨
      ∃ limit ended, (⟨t, a, answer⟩ : Deed) = ⟨t, .awaitExit limit, ended⟩ ∧ (limit = none ∨ ended = true) := by
  cases h with
  | stop he => exact .inr (.inr ⟨_, _, rfl, he⟩)
  | work h => rcases h with rfl | rfl | rfl <;> rcases hs with hs | hs <;> cases hs
  | tell h => rcases h with rfl | rfl <;> rcases hs with hs | hs <;> cases hs
  | kill h =>
    rcases h with rfl | rfl
    · rcases hs with hs | hs <;> cases hs
    · exact .inl rfl
  | recheck | fail | terminate => exact .inl rfl
  | _ => rcases hs with hs | hs <;> cases hs

end ShuttingDown.Turn

theorem mem_of_mem_concat {h : History} {d e : Deed} (hm : d ∈ h ++ [e]) (hne : d.task ≠ e.task) : d ∈ h := by
  rcases List.mem_append.mp hm with hm | hm
  · exact hm
  · exact absurd (congrArg Deed.task (List.mem_singleton.mp hm)) hne

namespace Awaited

variable {members : List TaskId} {x x' : Course} {places places' : TaskId → ShuttingDown}

theorem change (hm : ShuttingDown.TaskGroup members x places) (h : Awaited x places)
    (hc : ShuttingDown.placement.Change x places x' places') : Awaited x' places' := by
  cases hc with
  | @deed t a answer m tasks ha hp =>
    have hturn := ShuttingDown.turn_after ha (hm.counts t) answer
    change Awaited _ (Function.update places t ((places t).after a answer))
    generalize (places t).after a answer = place at hturn
    have hother : ∀ u, u ≠ t → Function.update places t place u = places u := fun u hu => Function.update_of_ne hu ..
    constructor
    case bound =>
      intro u before hmem
      by_cases e : u = t
      · subst e
        rw [Function.update_self]
        rcases List.mem_append.mp hmem with hmem | hmem
        · exact Nat.le_trans (h.bound u before hmem) hturn.rank_le
        · cases List.mem_singleton.mp hmem
          exact hturn.rank_of_takesOver rfl
      · rw [hother u e]
        exact h.bound u before (mem_of_mem_concat hmem e)
    case stopped =>
      intro u hu
      have hold : places u = .stopped ∨ places u = .left → ∃ limit ended,
          ⟨u, .awaitExit limit, ended⟩ ∈ x.history ++ [⟨t, a, answer⟩] ∧ (limit = none ∨ ended = true) := by
        intro hplace
        obtain ⟨limit, ended, hmem, he⟩ := h.stopped u hplace
        exact ⟨limit, ended, List.mem_append_left _ hmem, he⟩
      by_cases e : u = t
      · subst e
        rw [Function.update_self] at hu
        rcases hturn.of_stopped u hu with hplace | hplace | ⟨limit, ended, hd, he⟩
        · exact hold (.inl hplace)
        · exact hold (.inr hplace)
        · exact ⟨limit, ended, hd ▸ List.mem_append_right _ (List.mem_singleton_self _), he⟩
      · rw [hother u e] at hu
        exact hold hu
    case ended =>
      intro u hmem
      by_cases e : u = t
      · subst e
        rw [Function.update_self]
        rcases List.mem_append.mp hmem with hmem | hmem
        · exact hturn.of_ended (h.ended u hmem)
        · cases List.mem_singleton.mp hmem
          exact hturn.of_terminate
      · rw [hother u e]
        exact h.ended u (mem_of_mem_concat hmem e)
  | @newcomer op ha =>
    have hold : ∀ d ∈ x.history,
        Function.update places x.machine.nextTask (ShuttingDown.placement.operation op) d.task =
          places d.task := fun d hd => Function.update_of_ne (Nat.ne_of_lt (hm.old d hd)) ..
    constructor
    case bound =>
      intro u before hmem
      have hrank := h.bound u before hmem
      rwa [hold _ hmem]
    case stopped =>
      intro u hu
      by_cases e : u = x.machine.nextTask
      · rw [e, Function.update_self] at hu
        cases op <;> rcases hu with hu | hu <;> cases hu
      · rw [Function.update_of_ne e] at hu
        exact h.stopped u hu
    case ended =>
      intro u hmem
      have hended := h.ended u hmem
      rwa [hold _ hmem]
  | still hs ho => exact ⟨h.bound, h.stopped, h.ended⟩

variable {waits : TaskId → Severing} {t : TaskId}

/-- Who took it upon himself, and has nothing left to do, has waited until the process had ended. -/
theorem hasExited (h : Awaited x places) (hs : Severed x waits) {before : SessionState}
    (ht : ⟨t, .transition before .shuttingDown, true⟩ ∈ x.history)
    (hplace : places t = .left ∨ (places t).rank = 0) : x.machine.HasExited := by
  have hleft : places t = .left := by
    rcases hplace with hplace | hplace
    · exact hplace
    · exact absurd (h.bound t before ht) (by simp [hplace])
  obtain ⟨limit, ended, hmem, he⟩ := h.stopped t (.inr hleft)
  exact hs.waited t limit ended hmem he

/-- When the session has ended, so has the process, unless the session was ended for another reason. -/
theorem hasExited_or (h : Awaited x places) (hs : Severed x waits) (hstate : x.machine.state = .terminated) :
    x.machine.HasExited ∨ ∃ d ∈ x.history, d.Severs ∧ ⟨d.task, .terminate, ()⟩ ∈ x.history ∧
      ∀ before, ⟨d.task, .transition before .shuttingDown, true⟩ ∉ x.history := by
  obtain ⟨u, hu⟩ := hs.terminated hstate
  have htook : ∀ before, ⟨u, .transition before .shuttingDown, true⟩ ∈ x.history → x.machine.HasExited := by
    intro before hbefore
    refine h.hasExited hs hbefore ?_
    rcases h.ended u hu with hplace | hplace
    · exact .inl hplace
    · exact .inr (by rw [hplace]; rfl)
  -- Whoever ended the session was entitled to: he knew of the exit, had taken over, or had seen a failure.
  obtain ⟨d, hd, rfl, hentitles⟩ := hs.ended u hu
  cases hentitles with
  | exit => exact .inl (hs.exited _ _ hd)
  | takeOver => exact .inl (htook _ hd)
  | sever hsevers =>
    by_cases hover : ∃ before, ⟨d.task, .transition before .shuttingDown, true⟩ ∈ x.history
    · obtain ⟨before, hbefore⟩ := hover
      exact .inl (htook before hbefore)
    · exact .inr ⟨d, hd, hsevers, hu, fun before hbefore => hover ⟨before, hbefore⟩⟩

end Awaited

/-! ## Whole runs -/

/-- When somebody returns who shuts the session down, the session has ended. If he took it upon himself, the process
has ended as well. Otherwise the process may outlive the session, but only if somebody ended the session because its
streams or its handshake had failed. -/
theorem shutdown_returns_after_exit_or_severing (o : ClientOptions) (files : FileTree) (occurrences : List Occurrence)
    (h : ∀ op, .start op ∈ occurrences → op.isRaw = false) :
    let x := (Course.connected o files true).run occurrences
    ∀ t ∈ (Course.connected o files true).tasksFor Operation.isShutdown occurrences,
      (x.machine.results.get? t).isSome = true → x.machine.state = .terminated ∧
        ((∃ before, ⟨t, .transition before .shuttingDown, true⟩ ∈ x.history) → x.machine.HasExited) ∧
        (x.machine.HasExited ∨ ∃ d ∈ x.history, d.Severs ∧ ⟨d.task, .terminate, ()⟩ ∈ x.history ∧
          ∀ before, ⟨d.task, .transition before .shuttingDown, true⟩ ∉ x.history) := by
  intro x t ht hsome
  have hconnecting : connecting.Keeps Severing.rules .whole Severing.placement.Fits :=
    ⟨SessionState.noConfusion, fun moved => by cases moved <;> exact trivial⟩
  obtain ⟨waits, hsevered⟩ := Severed.upholds.run_connected hconnecting (severed_connected o files) occurrences
    (fun _ _ => trivial) fun _ _ _ _ => trivial
  have hhistory : (Course.connected o files true).history = [] := rfl
  obtain ⟨places, hm, hshutdowns, hawaited⟩ := shutdownInvariant_run_connected (I := Awaited) o files true occurrences h
    (by constructor <;> simp [hhistory]) fun members x places x' places' hm _ hi hchange => hi.change hm hchange
  have hstate := (hshutdowns.shutsDownOnce hm (frames_prefix_connected o files true occurrences)).ended t ht hsome
  refine ⟨hstate, ?_, hawaited.hasExited_or hsevered hstate⟩
  rintro ⟨before, hbefore⟩
  obtain ⟨result, hresult⟩ := Option.isSome_iff_exists.mp hsome
  refine hawaited.hasExited hsevered hbefore ?_
  rcases (hm.returned t result hresult).2 with hplace | hplace | hplace | hplace
  · exact .inl hplace
  · exact .inr (by rw [hplace]; rfl)
  · exact absurd hplace ((hm.members t).mpr ht)
  · exact absurd hplace (hm.counts t)

/-- The server closes its output and runs on, and then the session is shut down. -/
def hungUp : List Occurrence :=
  List.flatten [turns 2 [4], [.hangUp], turns 3 [1], [.start .shutdown], turns 3 [5]]

theorem shutdown_returns_after_severing_hungUp :
    ((Course.connected plainOptions ⟨[], []⟩ true).run hungUp).machine.state = .terminated ∧
      ¬ ((Course.connected plainOptions ⟨[], []⟩ true).run hungUp).machine.HasExited ∧
      ∃ d ∈ ((Course.connected plainOptions ⟨[], []⟩ true).run hungUp).history, d.Severs ∧
        ⟨d.task, .terminate, ()⟩ ∈ ((Course.connected plainOptions ⟨[], []⟩ true).run hungUp).history ∧
        ∀ before, ⟨d.task, .transition before .shuttingDown, true⟩ ∉
          ((Course.connected plainOptions ⟨[], []⟩ true).run hungUp).history := by
  have hraw : ∀ op, .start op ∈ hungUp → op.isRaw = false := by
    intro op hop
    simp [hungUp] at hop
    subst hop
    rfl
  have hrunning : ((Course.connected plainOptions ⟨[], []⟩ true).run hungUp).machine.process.map (·.published) =
      some none := by decide +kernel
  have hexited : ¬ ((Course.connected plainOptions ⟨[], []⟩ true).run hungUp).machine.HasExited := by
    rintro ⟨status, hstatus⟩
    cases hrunning.symm.trans hstatus
  obtain ⟨hstate, -, hor⟩ :=
    shutdown_returns_after_exit_or_severing plainOptions ⟨[], []⟩ hungUp hraw 5 (by decide +kernel) (by decide +kernel)
  exact ⟨hstate, hexited, hor.resolve_left hexited⟩

end Liaison
