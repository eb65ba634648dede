import Liaison.Proofs.Session.Readiness

/-!
# Frames after the shutdown request

An operation looks at the session once and then takes its time. So it may come too late: somebody has taken it upon
himself to shut the session down, the server has been asked, and the operation goes on speaking. Only those do that
had found the session in the wanted state before.
-/

namespace Liaison

def Deed.TakesOver (d : Deed) : Prop :=
  ∃ t before, d = ⟨t, .transition before .shuttingDown, true⟩

/-- The task has found the session ready, or starting if the frame is one of a handshake. -/
def HasFound (h : History) (t : TaskId) (frame : Json) : Prop :=
  ⟨t, .state, SessionState.ready⟩ ∈ h ∨
    (⟨t, .state, SessionState.starting⟩ ∈ h ∧ frame.IsAmong ["initialize", "initialized"])

/-! ## The rules of checking -/

inductive SessionCheck where
  | fresh
  | informed (state : SessionState)
  | aside
  | bound

namespace SessionCheck

def ofPhase : Phase → SessionCheck
  | .answering m =>
    if m.method? = none then aside else if m.method? = some "shutdown" then bound else informed .ready
  | _ => aside

def ofOperation (op : Operation) : SessionCheck :=
  if op.wanted?.isSome = true then fresh else aside

def Fitting : SessionState → Json → Prop
  | .ready, frame => frame.hasMethod "shutdown" = false
  | .starting, frame => frame.IsAmong ["initialize", "initialized"]
  | _, _ => False

def Allows : SessionCheck → Action → Prop
  | fresh, a => a = .state
  | informed state, .enqueue frame => Fitting state frame
  | aside, .enqueue frame => frame.IsAmong []
  | bound, .enqueue frame => frame.IsAmong ["shutdown", "exit"]
  | informed _, .transition before next => before = .starting ∧ next = .ready
  | _, .transition before next => before = .notStarted ∧ next = .starting ∨ next = .shuttingDown
  | _, .spawn phase => ofPhase phase = aside
  | _, _ => True

def after : SessionCheck → (a : Action) → a.Answer → SessionCheck
  | fresh, .state, state => if state = .ready ∨ state = .starting then informed state else aside
  | aside, .transition _ .shuttingDown, true => bound
  | place, _, _ => place

def Fits : Next → SessionCheck → Prop
  | .finish _, _ => True
  | .resume phase, _ => ofPhase phase = aside

def rules : Rules SessionCheck :=
  ⟨Allows, after⟩

theorem tolerates_informed {state : SessionState} {a : Action} (h : Allows (informed state) a) :
    rules.Tolerates (informed state) a := by
  refine ⟨h, ?_⟩
  intro answer
  cases a <;> rfl

theorem tolerates_bound {a : Action} (h : Allows bound a) : rules.Tolerates bound a := by
  refine ⟨h, ?_⟩
  intro answer
  cases a <;> rfl

theorem tolerates_aside {a : Action} (h : Allows aside a) (hm : ∀ before next, a ≠ .transition before next) :
    rules.Tolerates aside a := by
  refine ⟨h, ?_⟩
  intro answer
  cases a with
  | transition before next => exact absurd rfl (hm before next)
  | _ => rfl

theorem isEasy_informed (state : SessionState) : rules.IsEasy (informed state) := by
  intro a ha
  cases a <;> first | exact tolerates_informed trivial | cases ha

theorem isEasy_bound : rules.IsEasy bound := by
  intro a ha
  cases a <;> first | exact tolerates_bound trivial | cases ha

theorem isEasy_aside : rules.IsEasy aside := by
  intro a ha
  cases a <;> first | exact tolerates_aside trivial (by simp) | cases ha

theorem serves_aside (service : Service) : rules.Serves aside service := by
  intro a ha
  cases a <;> first | exact tolerates_aside trivial (by simp) | cases ha

theorem ends_informed (state : SessionState) : rules.Ends (informed state) :=
  ⟨tolerates_informed trivial, fun _ => tolerates_informed trivial, tolerates_informed trivial,
    tolerates_informed trivial⟩

theorem ends_bound : rules.Ends bound :=
  ⟨tolerates_bound trivial, fun _ => tolerates_bound trivial, tolerates_bound trivial, tolerates_bound trivial⟩

theorem ends_aside : rules.Ends aside :=
  ⟨tolerates_aside trivial (by simp), fun _ => tolerates_aside trivial (by simp), tolerates_aside trivial (by simp),
    tolerates_aside trivial (by simp)⟩

theorem speaks_ready {method : String} (h : method ≠ "shutdown") : rules.Speaks (informed .ready) method := by
  apply speaks_of_toJson
  intro m hm
  apply tolerates_informed
  change m.toJson.hasMethod "shutdown" = false
  simpa [hasMethod_toJson, hm] using h

theorem speaks_starting {method : String} (h : method ∈ ["initialize", "initialized"]) :
    rules.Speaks (informed .starting) method :=
  speaks_of_isAmong (fun _ hf => tolerates_informed hf) h

theorem speaks_bound {method : String} (h : method ∈ ["shutdown", "exit"]) : rules.Speaks bound method :=
  speaks_of_isAmong (fun _ hf => tolerates_bound hf) h

theorem ofPhase_eq_aside {p : Phase} (hp : ∀ m, p ≠ .answering m) : ofPhase p = aside := by
  cases p with
  | answering m => exact absurd rfl (hp m)
  | _ => rfl

theorem keeps_of_stays {place : SessionCheck} {service : Option Service} {r : Routine Next}
    (h : rules.Stays place service r) : r.Keeps rules place Fits :=
  h.keeps (fun _ => trivial) fun _ _ hp => ofPhase_eq_aside hp

theorem keeps_operation (o : ClientOptions) {op : Operation} (h : op.isRaw = false) :
    (op.routine o).Keeps rules (ofOperation op) Fits := by
  rcases op.cases_of_isRaw h with rfl | rfl | hw | hn
  · have hcalm := calm_handshake (isEasy_informed .starting).isPlain (ends_informed _) (speaks_starting (by simp))
      (speaks_starting (by simp)) (tolerates_informed ⟨rfl, rfl⟩) o
    exact (looksFor_operation o rfl).keeps (keeps_of_stays (stays_finishing _ hcalm)) rfl rfl fun _ _ => trivial
  · have hshutdown := keeps_shutdown isEasy_bound.isPlain isEasy_aside.isPlain ends_bound (speaks_bound (by simp))
      (speaks_bound (by simp)) (fun _ => .inr rfl) fun _ moved => by cases moved <;> rfl
    exact Routine.keeps_bind.mpr (hshutdown.mono fun _ _ _ => trivial)
  · have hmethods : "shutdown" ∉ op.methods := by
      cases op with
      | shutdown => cases hw
      | call method params timeout => cases h
      | notify method params => cases h
      | locate goal place timeout => cases goal <;> simp [Operation.methods, Goal.method]
      | _ => simp [Operation.methods]
    have hstays := stays_ready (isEasy_informed _) (ends_informed _).enqueueClose o hw fun method hmem =>
      speaks_ready fun e => hmethods (e ▸ hmem)
    have hplace : ofOperation op = fresh := by simp [ofOperation, hw]
    rw [hplace]
    exact (looksFor_operation o hw).keeps (keeps_of_stays hstays) rfl rfl fun _ _ => trivial
  · have hplace : ofOperation op = aside := by simp [ofOperation, Operation.wanted?_of_silent hn]
    rw [hplace]
    exact keeps_of_stays (stays_silent isEasy_aside ends_aside.enqueueClose o hn)

theorem keeps_phase (p : Phase) : p.routine.Keeps rules (ofPhase p) Fits := by
  have hother : ∀ {p : Phase}, (∀ m, p ≠ .answering m) → p.routine.Keeps rules (ofPhase p) Fits := by
    intro p hp
    rw [ofPhase_eq_aside hp]
    exact keeps_of_stays (stays_phase isEasy_aside.isPlain ends_aside (fun _ _ => serves_aside _)
      (fun _ _ => tolerates_aside rfl (by simp)) fun m he => absurd he (hp m))
  cases p with
  | answering m =>
    rw [ofPhase]
    split
    · rename_i hm
      have hanswer : m.toJson.IsAmong [] := isAmong_toJson_iff.mpr (by simp [hm])
      exact keeps_of_stays (stays_answering isEasy_aside.isPlain (tolerates_aside hanswer (by simp)))
    · split
      · rename_i hm
        have hshutdown : m.toJson.IsAmong ["shutdown", "exit"] := isAmong_toJson_iff.mpr (by simp [hm])
        exact keeps_of_stays (stays_answering isEasy_bound.isPlain (tolerates_bound hshutdown))
      · rename_i hm
        have hother : m.toJson.hasMethod "shutdown" = false := by simp [hasMethod_toJson, hm]
        exact keeps_of_stays (stays_answering (isEasy_informed _).isPlain (tolerates_informed hother))
  | _ => exact hother fun _ => Phase.noConfusion

def placement : Placement rules where
  Admits op := op.isRaw = false
  operation := ofOperation
  phase := ofPhase
  Fits := Fits
  keeps_operation o _ h := keeps_operation o h
  keeps_phase := keeps_phase

theorem fresh_or_aside {m : Machine} {places : TaskId → SessionCheck} {t : TaskId} {place : SessionCheck}
    (h : placement.Enters m places t place) : place = fresh ∨ place = aside := by
  cases h with
  | @start op hu ha =>
    change ofOperation op = fresh ∨ ofOperation op = aside
    unfold ofOperation
    split
    · exact .inl rfl
    · exact .inr rfl
  | @spawn u phase hu ha =>
    right
    cases hplace : places u with
    | fresh =>
      rw [hplace] at ha
      cases ha
    | _ =>
      rw [hplace] at ha
      exact ha
  | resume hf => exact .inr hf

end SessionCheck

/-! ## Coming too late -/

def InTime (t : TaskId) (state : SessionState) (h : History) : Prop :=
  ⟨t, .state, state⟩ ∈ h ∧ ∀ first d later, h = first ++ d :: later → d.TakesOver → ⟨t, .state, state⟩ ∈ first

theorem InTime.concat {t : TaskId} {state : SessionState} {h : History} (hi : InTime t state h) (d : Deed) :
    InTime t state (h ++ [d]) := by
  refine ⟨List.mem_append_left _ hi.1, ?_⟩
  intro first d' later he htakes
  rcases split_concat he with ⟨rfl, -, -⟩ | ⟨later', -, he⟩
  · exact hi.1
  · exact hi.2 first d' later' he htakes

/-- Who was informed, or took it upon himself to shut the session down, did so at his time. -/
structure ChecksInTime (x : Course) (places : TaskId → SessionCheck) : Prop where
  informed : ∀ t state, places t = .informed state → InTime t state x.history
  taken : ∀ d ∈ x.history, d.TakesOver → x.machine.state.IsOver
  bound : ∀ t, places t = .bound → ∃ d ∈ x.history, d.TakesOver
  asked : ∀ first e later frame, x.history = first ++ e :: later → e.handsIn? = some frame →
    frame.hasMethod "shutdown" = true → ∃ d ∈ first, d.TakesOver
  late : ∀ first d later, x.history = first ++ d :: later → d.TakesOver → ∀ e ∈ later, ∀ frame,
    e.handsIn? = some frame → frame.IsAmong ["shutdown", "exit"] ∨ HasFound first e.task frame

namespace ChecksInTime

variable {x : Course} {places : TaskId → SessionCheck} {t u : TaskId} {a : Action} {answer : a.Answer} {m : Machine}
  {state : SessionState} {frame : Json}

theorem action_of_handsIn (h : Deed.handsIn? ⟨t, a, answer⟩ = some frame) : a = .enqueue frame := by
  cases a with
  | enqueue frame' =>
    cases answer with
    | none => cases h
    | some ticket =>
      cases h
      rfl
  | _ => cases h

theorem hasFound_of_fitting {first : History} (hm : ⟨t, .state, state⟩ ∈ first)
    (hf : SessionCheck.Fitting state frame) :
    HasFound first t frame := by
  cases state with
  | ready => exact .inl hm
  | starting => exact .inr ⟨hm, hf⟩
  | _ => exact hf.elim

theorem isOver_after (ha : (places t).Allows a) (hp : x.machine.perform t a = some (answer, m))
    (ho : x.machine.state.IsOver) : m.state.IsOver := by
  cases a with
  | transition before next =>
    rcases transition_perform hp with ⟨-, hbefore, hs⟩ | ⟨-, -, hs⟩
    · have hnext : next = .shuttingDown := by
        cases hplace : places t with
        | fresh =>
          rw [hplace] at ha
          cases ha
        | informed state =>
          rw [hplace] at ha
          exact absurd (ha.1 ▸ hbefore) ho.ne_starting
        | aside =>
          rw [hplace] at ha
          rcases ha with ⟨rfl, -⟩ | hnext
          · rw [hbefore] at ho
            rcases ho with he | he <;> cases he
          · exact hnext
        | bound =>
          rw [hplace] at ha
          rcases ha with ⟨rfl, -⟩ | hnext
          · rw [hbefore] at ho
            rcases ho with he | he <;> cases he
          · exact hnext
      rw [hs, hnext]
      exact .inl rfl
    · rwa [hs]
  | terminate =>
    cases hp
    exact .inr rfl
  | _ => rwa [(spares_perform hp).state (by simp [Action.reach])]

theorem taken_after (h : ChecksInTime x places) (ha : (places t).Allows a)
    (hp : x.machine.perform t a = some (answer, m)) :
    ∀ d ∈ x.history ++ [⟨t, a, answer⟩], d.TakesOver → m.state.IsOver := by
  intro d hd htakes
  rcases List.mem_append.mp hd with hd | hd
  · exact isOver_after ha hp (h.taken d hd htakes)
  · obtain ⟨v, before, he⟩ := htakes
    cases (List.mem_singleton.mp hd).symm.trans he
    rcases transition_perform hp with ⟨-, -, hs⟩ | ⟨hfalse, -, -⟩
    · exact .inl hs
    · cases hfalse

theorem informed_after (h : ChecksInTime x places) (ha : (places t).Allows a)
    (hp : x.machine.perform t a = some (answer, m)) (hs : (places t).after a answer = .informed state) :
    InTime t state (x.history ++ [⟨t, a, answer⟩]) := by
  cases hplace : places t with
  | informed state' =>
    rw [hplace] at hs
    obtain rfl : state' = state := by
      cases a <;> exact SessionCheck.informed.inj hs
    exact (h.informed t state' hplace).concat _
  | fresh =>
    rw [hplace] at ha hs
    cases ha
    cases hp
    rw [SessionCheck.after] at hs
    split at hs
    · rename_i hstate
      cases hs
      refine ⟨by simp, ?_⟩
      intro first d later he htakes
      rcases split_concat he with ⟨-, rfl, -⟩ | ⟨later', -, he⟩
      · obtain ⟨_, _, hne⟩ := htakes
        cases hne
      · -- Had somebody taken over before, the session would be over by now.
        have hover := h.taken d (by simp [he]) htakes
        rcases hstate with hstate | hstate <;> rcases hover with hover | hover <;>
          exact absurd (hstate.symm.trans hover) SessionState.noConfusion
    · cases hs
  | aside =>
    rw [hplace] at hs
    cases a with
    | transition before next => cases next <;> cases answer <;> cases hs
    | _ => cases hs
  | bound =>
    rw [hplace] at hs
    cases a <;> cases hs

theorem bound_after (h : ChecksInTime x places) (ha : (places t).Allows a) (hs : (places t).after a answer = .bound) :
    ∃ d ∈ x.history ++ [⟨t, a, answer⟩], d.TakesOver := by
  cases hplace : places t with
  | bound =>
    obtain ⟨d, hd, htakes⟩ := h.bound t hplace
    exact ⟨d, List.mem_append_left _ hd, htakes⟩
  | aside =>
    rw [hplace] at hs
    cases a with
    | transition before next =>
      cases next with
      | shuttingDown =>
        cases answer with
        | true => exact ⟨_, by simp, t, before, rfl⟩
        | false => cases hs
      | _ => cases hs
    | _ => cases hs
  | informed state =>
    rw [hplace] at hs
    cases a <;> cases hs
  | fresh =>
    rw [hplace] at ha hs
    cases ha
    rw [SessionCheck.after] at hs
    split at hs <;> cases hs

theorem asked_after (h : ChecksInTime x places) (ha : (places t).Allows a)
    (he : Deed.handsIn? ⟨t, a, answer⟩ = some frame) (hf : frame.hasMethod "shutdown" = true) :
    ∃ d ∈ x.history, d.TakesOver := by
  cases action_of_handsIn he
  cases hplace : places t with
  | bound => exact h.bound t hplace
  | fresh =>
    rw [hplace] at ha
    cases ha
  | aside =>
    rw [hplace] at ha
    have hnot := Json.IsAmong.hasMethod_eq_false ha (show "shutdown" ∉ [] by simp)
    simp [hf] at hnot
  | informed state =>
    rw [hplace] at ha
    have hfitting : SessionCheck.Fitting state frame := ha
    cases state with
    | ready => exact absurd (hf.symm.trans hfitting) (by simp)
    | starting =>
      have hnot := Json.IsAmong.hasMethod_eq_false hfitting (show "shutdown" ∉ _ by simp)
      simp [hf] at hnot
    | _ => exact hfitting.elim

theorem late_after (h : ChecksInTime x places) (ha : (places t).Allows a)
    (he : Deed.handsIn? ⟨t, a, answer⟩ = some frame) {first later : History} {d : Deed}
    (hh : x.history = first ++ d :: later) (htakes : d.TakesOver) :
    frame.IsAmong ["shutdown", "exit"] ∨ HasFound first t frame := by
  cases action_of_handsIn he
  cases hplace : places t with
  | fresh =>
    rw [hplace] at ha
    cases ha
  | aside =>
    rw [hplace] at ha
    exact .inl (Json.IsAmong.mono ha (by simp))
  | bound =>
    rw [hplace] at ha
    exact .inl ha
  | informed state =>
    rw [hplace] at ha
    exact .inr (hasFound_of_fitting ((h.informed t state hplace).2 first d later hh htakes) ha)

theorem act (h : ChecksInTime x places) (ha : (places t).Allows a) (hp : x.machine.perform t a = some (answer, m)) :
    ChecksInTime ⟨m, x.history ++ [⟨t, a, answer⟩]⟩ (Function.update places t ((places t).after a answer)) := by
  constructor
  case informed =>
    intro u state hu
    by_cases e : u = t
    · subst e
      rw [Function.update_self] at hu
      exact h.informed_after ha hp hu
    · rw [Function.update_of_ne e] at hu
      exact (h.informed u state hu).concat _
  case taken => exact h.taken_after ha hp
  case bound =>
    intro u hu
    by_cases e : u = t
    · subst e
      rw [Function.update_self] at hu
      exact h.bound_after ha hu
    · rw [Function.update_of_ne e] at hu
      obtain ⟨d, hd, htakes⟩ := h.bound u hu
      exact ⟨d, List.mem_append_left _ hd, htakes⟩
  case asked =>
    intro first e later frame he hin hf
    rcases split_concat he with ⟨rfl, rfl, -⟩ | ⟨later', -, he⟩
    · exact h.asked_after ha hin hf
    · exact h.asked first e later' frame he hin hf
  case late =>
    intro first d later he htakes e hmem frame hin
    rcases split_concat he with ⟨-, -, rfl⟩ | ⟨later', rfl, hh⟩
    · cases hmem
    · rcases List.mem_append.mp hmem with hmem | hmem
      · exact h.late first d later' hh htakes e hmem frame hin
      · cases List.mem_singleton.mp hmem
        exact h.late_after ha hin hh htakes

theorem upholds : SessionCheck.placement.Upholds (fun _ _ => True) ChecksInTime where
  alike h hm := ⟨h.informed, fun d hd ht => hm.state ▸ h.taken d hd ht, h.bound, h.asked, h.late⟩
  enter := by
    intro x places t s h hs
    have hplace := SessionCheck.fresh_or_aside hs
    have hold : ∀ u place, place ≠ .fresh → place ≠ .aside → Function.update places t s u = place →
        places u = place := by
      intro u place hf ha hu
      by_cases e : u = t
      · subst e
        rw [Function.update_self] at hu
        rcases hplace with hs | hs
        · exact absurd (hu ▸ hs) hf
        · exact absurd (hu ▸ hs) ha
      · rwa [Function.update_of_ne e] at hu
    refine ⟨?_, h.taken, ?_, h.asked, h.late⟩
    · exact fun u state hu => h.informed u state (hold u _ SessionCheck.noConfusion SessionCheck.noConfusion hu)
    · exact fun u hu => h.bound u (hold u _ SessionCheck.noConfusion SessionCheck.noConfusion hu)
  act h ha hp := h.act ha hp
  drop h _ := ⟨h.informed, fun d hd ht => (drop_eq _ _).1.symm ▸ h.taken d hd ht, h.bound, h.asked, h.late⟩

end ChecksInTime

theorem checkedInTime_connected (o : ClientOptions) (files : FileTree) (hasProcess : Bool) :
    ChecksInTime (Course.connected o files hasProcess)
      (SessionCheck.placement.connected o files hasProcess .aside) := by
  have hplace : ∀ t, SessionCheck.placement.connected o files hasProcess .aside t = .aside :=
    Placement.connected_eq rfl rfl (fun _ _ => rfl) rfl o files hasProcess
  have hhistory : (Course.connected o files hasProcess).history = [] := rfl
  constructor <;> simp [hplace, hhistory]

/-! ## Whole runs -/

theorem avoids_of_isRaw {op : Operation} (h : op.isRaw = false) (hne : op ≠ .shutdown) :
    op.Avoids ["shutdown", "exit"] := by
  cases op with
  | shutdown => exact absurd rfl hne
  | call method params timeout => cases h
  | notify method params => cases h
  | locate goal place timeout => cases goal <;> simp [Operation.Avoids, Operation.methods, Goal.method]
  | _ => simp [Operation.Avoids, Operation.methods]

/-- What holds of those who shut the session down, and whatever else they keep, from the beginning on. -/
theorem shutdownInvariant_run_connected {I : Course → (TaskId → ShuttingDown) → Prop} (o : ClientOptions)
    (files : FileTree) (hasProcess : Bool) (occurrences : List Occurrence)
    (h : ∀ op, .start op ∈ occurrences → op.isRaw = false)
    (hi : I (Course.connected o files hasProcess) fun _ => .elsewhere)
    (hI : ∀ members x places x' places',
      ShuttingDown.TaskGroup members x places → ShutdownInvariant x places → I x places →
      ShuttingDown.placement.Change x places x' places' → I x' places') :
    ∃ places, ShuttingDown.TaskGroup ((Course.connected o files hasProcess).tasksFor Operation.isShutdown occurrences)
        ((Course.connected o files hasProcess).run occurrences) places ∧
      ShutdownInvariant ((Course.connected o files hasProcess).run occurrences) places ∧
      I ((Course.connected o files hasProcess).run occurrences) places := by
  have hallows : ShuttingDown.elsewhere.Allows (.transition .notStarted .starting) := .inl ⟨rfl, rfl⟩
  have hconnecting : connecting.Keeps ShuttingDown.rules .elsewhere ShuttingDown.placement.Fits :=
    (Routine.calm_act (ShuttingDown.tolerates_elsewhere hallows)).keeps_bind fun _ => .inr (.inr (.inl rfl))
  have hplaces : ShuttingDown.placement.connected o files hasProcess .elsewhere = fun _ => .elsewhere :=
    funext (shuttingDown_connected_eq o files hasProcess)
  obtain ⟨hm, hx⟩ := shutdownInvariant_connected o files hasProcess
  obtain ⟨places, -, hm, hx, hi⟩ :=
    TaskGroup.run (I := fun x places => ShutdownInvariant x places ∧ I x places) ShuttingDown.confines
      (keepsRules_connected ShuttingDown.placement o files hasProcess hconnecting) hm ⟨hx, hplaces ▸ hi⟩
      (fun members x places x' places' hm ⟨hx, hi⟩ hchange =>
        ⟨(hx.change hm hchange).1, hI members x places x' places' hm hx hi hchange⟩) occurrences
      fun op hop => avoids_of_isRaw (h op hop)
  exact ⟨places, hm, hx, hi⟩

theorem length_asked_connected (o : ClientOptions) (files : FileTree) (hasProcess : Bool)
    (occurrences : List Occurrence) (h : ∀ op, .start op ∈ occurrences → op.isRaw = false) :
    (((Course.connected o files hasProcess).run occurrences).machine.outlet.frames.filter
      (Json.hasMethod "shutdown")).length ≤ 1 := by
  obtain ⟨_, hm, hx, -⟩ :=
    shutdownInvariant_run_connected (I := fun _ _ => True) o files hasProcess occurrences h trivial
    fun _ _ _ _ _ _ _ _ _ => trivial
  exact (hx.shutsDownOnce hm (frames_prefix_connected o files hasProcess occurrences)).asked

theorem exists_handed {h : History} {before after : List Json} {frame : Json}
    (hp : before ++ frame :: after <+: handedIn h) : ∃ first d later, h = first ++ d :: later ∧
      d.handsIn? = some frame ∧ ∀ other ∈ after, ∃ e ∈ later, e.handsIn? = some other := by
  obtain ⟨rest, hrest⟩ := hp
  rw [List.append_assoc, List.cons_append] at hrest
  obtain ⟨early, late, rfl, -, hlate⟩ := List.filterMap_eq_append_iff.mp hrest.symm
  obtain ⟨aside, d, later, rfl, -, hd, hlater⟩ := List.filterMap_eq_cons_iff.mp hlate
  refine ⟨early ++ aside, d, later, by simp, hd, ?_⟩
  intro other hother
  have hmem : other ∈ later.filterMap Deed.handsIn? := hlater ▸ List.mem_append_left _ hother
  exact List.mem_filterMap.mp hmem

theorem eq_false_of_length_filter {α : Type} {p : α → Bool} {before after : List α} {a b : α}
    (h : ((before ++ a :: after).filter p).length ≤ 1) (ha : p a = true) (hb : b ∈ after) : p b = false := by
  by_contra hagain
  have hmem : b ∈ after.filter p := List.mem_filter.mpr ⟨hb, by simpa using hagain⟩
  have hpos := List.length_pos_of_mem hmem
  rw [List.filter_append, List.filter_cons_of_pos ha, List.length_append, List.length_cons] at h
  omega

/-- What is written after the server was asked to shut down tells it to exit, or answers it, or comes from a task that
had found the session in the wanted state before somebody took it upon himself to shut it down. -/
theorem frames_after_shutdown_request (o : ClientOptions) (files : FileTree) (hasProcess : Bool)
    (occurrences : List Occurrence) (h : ∀ op, .start op ∈ occurrences → op.isRaw = false) :
    let x := (Course.connected o files hasProcess).run occurrences
    ∀ before asking after, x.machine.outlet.frames = before ++ asking :: after →
      asking.hasMethod "shutdown" = true → ∃ first d later, x.history = first ++ d :: later ∧ d.TakesOver ∧
        ∀ frame ∈ after, frame.IsAmong ["exit"] ∨
          ∃ e ∈ later, e.handsIn? = some frame ∧ HasFound first e.task frame := by
  intro x before asking after hframes hasking
  have hconnecting : connecting.Keeps SessionCheck.rules .aside SessionCheck.placement.Fits :=
    ⟨.inl ⟨rfl, rfl⟩, fun moved => by cases moved <;> exact trivial⟩
  obtain ⟨_, hchecks⟩ :=
    ChecksInTime.upholds.run_connected hconnecting (checkedInTime_connected o files hasProcess) occurrences h
    fun _ _ _ _ => trivial
  obtain ⟨early, e, others, hsplit, he, hothers⟩ :=
    exists_handed (hframes ▸ frames_prefix_connected o files hasProcess occurrences)
  -- Whoever takes over does so before the server is asked.
  obtain ⟨d, hd, htakes⟩ := hchecks.asked early e others asking hsplit he hasking
  obtain ⟨first, mid, rfl⟩ := List.append_of_mem hd
  have hsplit' : x.history = first ++ d :: (mid ++ e :: others) := by rw [hsplit, List.append_assoc, List.cons_append]
  refine ⟨first, d, _, hsplit', htakes, ?_⟩
  intro frame hframe
  obtain ⟨e', he', hin⟩ := hothers frame hframe
  have hlater : e' ∈ mid ++ e :: others := by simp [he']
  rcases hchecks.late first d _ hsplit' htakes e' hlater frame hin with (hanswer | ⟨method, hmethod, hf⟩) | hfound
  · exact .inl (.inl hanswer)
  · -- The server is not asked again.
    have honce := length_asked_connected o files hasProcess occurrences h
    rw [hframes] at honce
    have hne : method ≠ "shutdown" := by
      rintro rfl
      rw [eq_false_of_length_filter honce hasking hframe] at hf
      cases hf
    exact .inl (.inr ⟨method, by simpa [hne] using hmethod, hf⟩)
  · exact .inr ⟨e', hlater, hin, hfound⟩

/-- A handshake has asked when the session is shut down, and tells the server that it is ready after the server was
asked to shut down. -/
def overtaken : List Occurrence :=
  List.flatten [
    turns 2 [3], [.start .handshake], turns 9 [4, 0], [.start .shutdown], turns 9 [5, 0],
    [.receive (Frame.write (Message.reply (.ofNat 1) (.obj [])).toJson)], turns 9 [1, 4, 0]]

theorem frames_after_shutdown_request_overtaken :
    ∃ first asking last, ((Course.connected plainOptions ⟨[], []⟩ false).run overtaken).machine.outlet.frames =
        [first, asking, last] ∧ asking.hasMethod "shutdown" = true ∧ last.hasMethod "initialized" = true ∧
      ∃ early d later, ((Course.connected plainOptions ⟨[], []⟩ false).run overtaken).history = early ++ d :: later ∧
        d.TakesOver ∧ ∀ frame ∈ [last], frame.IsAmong ["exit"] ∨
          ∃ e ∈ later, e.handsIn? = some frame ∧ HasFound early e.task frame := by
  have hraw : ∀ op, .start op ∈ overtaken → op.isRaw = false := by
    intro op hop
    simp [overtaken] at hop
    rcases hop with rfl | rfl <;> rfl
  have hframes : ((Course.connected plainOptions ⟨[], []⟩ false).run overtaken).machine.outlet.frames.map
      (fun frame => ["initialize", "shutdown", "initialized"].map frame.hasMethod) =
        [[true, false, false], [false, true, false], [false, false, true]] := by decide +kernel
  obtain ⟨first, asking, last, he⟩ := List.length_eq_three.mp (by simpa using congrArg List.length hframes)
  rw [he] at hframes
  have hasking : asking.hasMethod "shutdown" = true := by simp_all
  have hlast : last.hasMethod "initialized" = true := by simp_all
  have hlate := frames_after_shutdown_request plainOptions ⟨[], []⟩ false overtaken hraw
  exact ⟨first, asking, last, he, hasking, hlast, hlate [first] asking [last] he hasking⟩

end Liaison
