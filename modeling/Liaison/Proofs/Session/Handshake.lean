import Liaison.Proofs.Session.Handshaking
import Liaison.Proofs.Session.TaskGroup

/-!
# The handshakes of a session

What a handshake has done tells how far it has come, and how far it has come tells something of the session. Both
stay true whatever happens, also when several handshakes are carried out beside one another.
-/

namespace Liaison

/-- The session has ended, or is being ended in order. -/
def SessionState.IsOver (s : SessionState) : Prop :=
  s = .shuttingDown ∨ s = .terminated

def SessionState.GoesOn (s s' : SessionState) : Prop :=
  s' = s ∨ s'.IsOver ∨ (s = .starting ∧ s' = .ready)

namespace SessionState

variable {s s' : SessionState}

theorem IsOver.ne_starting (h : s.IsOver) : s ≠ .starting := by
  rintro rfl
  rcases h with h | h <;> cases h

theorem GoesOn.isOver (h : s.GoesOn s') (hs : s.IsOver) : s'.IsOver := by
  rcases h with rfl | h | ⟨h, -⟩
  · exact hs
  · exact h
  · exact absurd h hs.ne_starting

theorem GoesOn.ne_starting (h : s.GoesOn s') (hs : s ≠ .starting) : s' ≠ .starting := by
  rcases h with rfl | h | ⟨h, -⟩
  · exact hs
  · exact h.ne_starting
  · exact absurd h hs

end SessionState

theorem transition_perform {m m' : Machine} {t : TaskId} {before next : SessionState} {moved : Bool}
    (hp : m.perform t (.transition before next) = some (moved, m')) :
    (moved = true ∧ m.state = before ∧ m'.state = next) ∨
      (moved = false ∧ (m.state = before → m.state = .terminated) ∧ m'.state = m.state) := by
  simp only [Machine.perform, SessionState.transition, Option.some.injEq, Prod.mk.injEq] at hp
  obtain ⟨rfl, rfl⟩ := hp
  by_cases hs : m.state = before ∧ m.state ≠ .terminated
  · rw [if_pos hs]
    exact .inl ⟨rfl, hs.1, rfl⟩
  · rw [if_neg hs]
    refine .inr ⟨rfl, ?_, rfl⟩
    intro he
    by_contra hn
    exact hs ⟨he, hn⟩

/-! ## What deeds tell of handshakes -/

/-- The task that finds the session starting, and so begins with a handshake. -/
def Deed.begins? : Deed → Option TaskId
  | ⟨t, .state, .starting⟩ => some t
  | _ => none

def Deed.sends? (method : String) : Deed → Option TaskId
  | ⟨t, .enqueue frame, _⟩ => if frame.hasMethod method then some t else none
  | _ => none

theorem task_of_begins? {d : Deed} {t : TaskId} (h : d.begins? = some t) : t = d.task := by
  unfold Deed.begins? at h
  split at h <;> cases h
  rfl

theorem task_of_sends? {method : String} {d : Deed} {t : TaskId} (h : d.sends? method = some t) : t = d.task := by
  obtain ⟨u, a, answer⟩ := d
  cases a with
  | enqueue frame =>
    rw [Deed.sends?] at h
    split at h <;> cases h
    rfl
  | _ => cases h

def Deed.readies? : Deed → Option TaskId
  | ⟨t, .transition .starting .ready, true⟩ => some t
  | _ => none

theorem task_of_readies? {d : Deed} {t : TaskId} (h : d.readies? = some t) : t = d.task := by
  unfold Deed.readies? at h
  split at h <;> cases h
  rfl

theorem state_of_begins {m m' : Machine} {t u : TaskId} {a : Action} {answer : a.Answer}
    (hp : m.perform t a = some (answer, m')) (h : Deed.begins? ⟨t, a, answer⟩ = some u) : m.state = .starting := by
  cases a with
  | state =>
    simp only [Machine.perform, Option.some.injEq, Prod.mk.injEq] at hp
    obtain ⟨rfl, -⟩ := hp
    cases hs : m.state with
    | starting => rfl
    | _ =>
      rw [hs] at h
      cases h
  | _ => cases h

def Action.endsSession : Action → Bool
  | enqueueClose | kill | closeCalls _ | terminate => true
  | _ => false

/-- The task that takes a step towards the end of the session. -/
def Deed.ends? (d : Deed) : Option TaskId :=
  if d.action.endsSession then some d.task else none

def begun (h : History) : List TaskId :=
  h.filterMap Deed.begins?

def senders (method : String) (h : History) : List TaskId :=
  h.filterMap (Deed.sends? method)

def readied (h : History) : List TaskId :=
  h.filterMap Deed.readies?

def enders (h : History) : List TaskId :=
  h.filterMap Deed.ends?

/-- Who hands in a message with the method for the first time is none of those who have done so. -/
theorem nodup_senders_concat {method : String} {h : History} {t : TaskId} {a : Action} {answer : a.Answer}
    (level : TaskId → Nat) {rank : Nat} (hn : (senders method h).Nodup)
    (hm : ∀ d ∈ h, d.sends? method ≠ none → rank ≤ level d.task)
    (hd' : Deed.sends? method ⟨t, a, answer⟩ ≠ none → level t < rank) :
    (senders method (h ++ [⟨t, a, answer⟩])).Nodup := by
  rw [senders, filterMap_concat]
  cases hs : Deed.sends? method ⟨t, a, answer⟩ with
  | none =>
    rw [Option.toList_none, List.append_nil]
    exact hn
  | some u =>
    have hu : u = t := task_of_sends? hs
    subst hu
    rw [Option.toList_some, List.nodup_append]
    refine ⟨hn, by simp, ?_⟩
    intro v hv w hw e
    rw [List.mem_singleton] at hw
    rw [e, hw] at hv
    obtain ⟨d, hd, hsends⟩ := List.mem_filterMap.mp hv
    have hlt := hd' (by simp [hs])
    have hle := hm d hd (by simp [hsends])
    rw [← task_of_sends? hsends] at hle
    omega

theorem length_filter_handedIn_le (method : String) (h : History) :
    ((handedIn h).filter (Json.hasMethod method)).length ≤ (senders method h).length := by
  induction h with
  | nil => exact Nat.le_refl _
  | cons d h ih =>
    obtain ⟨t, a, answer⟩ := d
    cases a with
    | enqueue frame =>
      cases answer with
      | none =>
        have hle : (senders method h).length ≤ (senders method (⟨t, .enqueue frame, none⟩ :: h)).length :=
          ((List.sublist_cons_self _ h).filterMap _).length_le
        exact Nat.le_trans ih hle
      | some ticket =>
        change ((frame :: handedIn h).filter (Json.hasMethod method)).length ≤ _
        rw [List.filter_cons, senders, List.filterMap_cons, Deed.sends?]
        cases frame.hasMethod method with
        | true => exact Nat.succ_le_succ ih
        | false => exact ih
    | _ => exact ih

theorem length_le_one {tasks : List TaskId} (hn : tasks.Nodup) (hone : ∀ t ∈ tasks, ∀ u ∈ tasks, t = u) :
    tasks.length ≤ 1 := by
  match tasks with
  | [] => exact Nat.zero_le 1
  | [_] => exact Nat.le_refl 1
  | t :: u :: rest =>
    have he : t = u := hone t (by simp) u (by simp)
    simp [he] at hn

/-- A message that only one task hands in, and only once, is written once at most. -/
theorem length_filter_le_one {frames : List Json} {h : History} (hw : frames <+: handedIn h) {method : String}
    (hn : (senders method h).Nodup) (hone : ∀ t ∈ senders method h, ∀ u ∈ senders method h, t = u) :
    (frames.filter (Json.hasMethod method)).length ≤ 1 :=
  calc (frames.filter (Json.hasMethod method)).length
      ≤ ((handedIn h).filter (Json.hasMethod method)).length := (hw.filter _).length_le
    _ ≤ (senders method h).length := length_filter_handedIn_le method h
    _ ≤ 1 := length_le_one hn hone

namespace Handshaking

def rank : Handshaking → Nat
  | fresh | away _ | elsewhere | unbound => 0
  | found => 1
  | asked => 2
  | told => 3
  | leaving | left | shaken | late => 4

structure Marks (place : Handshaking) (d : Deed) : Prop where
  begins : place ≠ elsewhere → d.begins? ≠ none → 1 ≤ place.rank
  asks : d.sends? "initialize" ≠ none → 2 ≤ place.rank
  tells : d.sends? "initialized" ≠ none → 3 ≤ place.rank
  readies : d.readies? ≠ none → place = shaken
  ends : place ≠ elsewhere → d.ends? ≠ none → place = leaving ∨ place = left

def Holds : Handshaking → SessionState → Prop
  | away seen, state => seen = .terminated → state.IsOver
  | left, state => state.IsOver
  | shaken, state | late, state => state ≠ .starting
  | unbound, _ => False
  | _, _ => True

namespace Turn

variable {place place' : Handshaking} {a : Action} {answer : a.Answer} {m m' : Machine} {t : TaskId}

theorem rank_le (h : Turn place a answer place') : place.rank ≤ place'.rank := by
  cases h with
  | leave h => rcases h with rfl | rfl | rfl <;> simp [rank]
  | _ => simp [rank]

theorem ne_shaken (h : Turn place a answer place') : place ≠ shaken := by
  rintro rfl
  cases h with
  | work h => rcases h with h | h | h <;> cases h
  | leave h => rcases h with h | h | h <;> cases h

theorem marks (h : Turn place a answer place') {d : Deed} (hm : place.Marks d) : place'.Marks d := by
  have hrank := h.rank_le
  have hinside : place' ≠ elsewhere → place ≠ elsewhere := by
    rintro hp rfl
    cases h with
    | work h => rcases h with h | h | h <;> cases h
    | leave h => rcases h with h | h | h <;> cases h
    | other => exact hp rfl
  constructor
  case begins =>
    intro hp hd
    exact Nat.le_trans (hm.begins (hinside hp) hd) hrank
  case asks =>
    intro hd
    exact Nat.le_trans (hm.asks hd) hrank
  case tells =>
    intro hd
    exact Nat.le_trans (hm.tells hd) hrank
  case readies =>
    intro hd
    exact absurd (hm.readies hd) h.ne_shaken
  case ends =>
    intro hp hd
    -- From where the session is ended there is no way back.
    rcases hm.ends (hinside hp) hd with rfl | rfl
    · cases h with
      | work h => exact .inl rfl
      | leave h => exact .inl rfl
      | kill => exact .inl rfl
      | close => exact .inl rfl
      | terminate => exact .inr rfl
    · cases h with
      | work h => exact .inr rfl
      | leave h => exact .inl rfl

theorem tells_of_isOrdinary (t : TaskId) (answer : a.Answer) (ha : a.isOrdinary = true) :
    (∀ method, Deed.sends? method ⟨t, a, answer⟩ = none) ∧
      Deed.readies? ⟨t, a, answer⟩ = none ∧ Deed.ends? ⟨t, a, answer⟩ = none := by
  cases a <;> first | exact ⟨fun _ => rfl, rfl, rfl⟩ | cases ha

theorem sends?_enqueue (m : Message) (method : String) (ticket : Option Nat) :
    Deed.sends? method ⟨t, .enqueue m.toJson, ticket⟩ = if m.method? = some method then some t else none := by
  rw [Deed.sends?, hasMethod_toJson]
  simp

theorem marks_self (h : Turn place a answer place') : place'.Marks ⟨t, a, answer⟩ := by
  cases h with
  | turn hs => constructor <;> simp [Deed.begins?, Deed.sends?, Deed.readies?, Deed.ends?, Action.endsSession, hs]
  | work h ha =>
    obtain ⟨hsends, hreadies, hends⟩ := tells_of_isOrdinary t answer ha
    constructor
    case begins =>
      intro _ _
      rcases h with rfl | rfl | rfl <;> simp [rank]
    all_goals simp [hsends, hreadies, hends]
  | ask =>
    constructor <;>
      simp [sends?_enqueue, Message.method?, Deed.readies?, Deed.ends?, Action.endsSession, rank]
  | tell =>
    constructor <;>
      simp [sends?_enqueue, Message.method?, Deed.readies?, Deed.ends?, Action.endsSession, rank]
  | other ha =>
    constructor
    case begins => exact fun hp => absurd rfl hp
    case asks =>
      cases a with
      | enqueue frame => simp [Deed.sends?, ha.1]
      | _ => simp [Deed.sends?]
    case tells =>
      cases a with
      | enqueue frame => simp [Deed.sends?, ha.2]
      | _ => simp [Deed.sends?]
    case readies =>
      cases a with
      | transition before next =>
        cases ha
        simp [Deed.readies?]
      | _ => simp [Deed.readies?]
    case ends => exact fun hp => absurd rfl hp
  | _ => constructor <;> simp [Deed.begins?, Deed.sends?, Deed.readies?, Deed.ends?, Action.endsSession, rank]

theorem rank_lt_of_sends (h : Turn place a answer place') :
    (Deed.sends? "initialize" ⟨t, a, answer⟩ ≠ none → place.rank < 2) ∧
      (Deed.sends? "initialized" ⟨t, a, answer⟩ ≠ none → place.rank < 3) := by
  cases h with
  | work h ha =>
    have hsends := (tells_of_isOrdinary t answer ha).1
    simp [hsends]
  | ask => simp [rank]
  | tell => simp [sends?_enqueue, Message.method?, rank]
  | other ha => simp [rank]
  | _ => simp [Deed.sends?]

theorem begins_of_rank (h : Turn place a answer place') (h0 : place.rank = 0) (h1 : 1 ≤ place'.rank) :
    place = fresh ∧ place' = found ∧ Deed.begins? ⟨t, a, answer⟩ = some t := by
  cases h with
  | find => exact ⟨rfl, rfl, rfl⟩
  | work h => rcases h with rfl | rfl | rfl <;> cases h0
  | leave h => rcases h with rfl | rfl | rfl <;> cases h0
  | turn | other => cases h1
  | _ => cases h0

theorem elsewhere_iff (h : Turn place a answer place') : place' = elsewhere ↔ place = elsewhere := by
  cases h with
  | work => rfl
  | leave h => rcases h with rfl | rfl | rfl <;> simp
  | _ => simp

theorem ne_unbound (h : Turn place a answer place') : place' ≠ unbound := by
  cases h with
  | work h => rcases h with rfl | rfl | rfl <;> simp
  | leave h => simp
  | _ => simp

/-- The session goes on towards its end, or it becomes ready by a handshake. -/
theorem state (h : Turn place a answer place') (hp : m.perform t a = some (answer, m')) :
    m'.state = m.state ∨ m'.state.IsOver ∨ (place' = shaken ∧ m.state = .starting ∧ m'.state = .ready) := by
  cases a with
  | transition before next =>
    rcases transition_perform hp with ⟨rfl, hb, hn⟩ | ⟨-, -, hn⟩
    · cases h with
      | work h ha => cases ha
      | ready => exact .inr (.inr ⟨rfl, hb, hn⟩)
      | other ha =>
        cases ha
        exact .inr (.inl (.inl hn))
    · exact .inl hn
  | terminate =>
    cases hp
    exact .inr (.inl (.inr rfl))
  | _ => exact .inl ((spares_perform hp).state (by simp [Action.reach]))

theorem goesOn (h : Turn place a answer place') (hp : m.perform t a = some (answer, m')) :
    m.state.GoesOn m'.state := by
  rcases h.state hp with he | he | ⟨-, he⟩
  · exact .inl he
  · exact .inr (.inl he)
  · exact .inr (.inr he)

theorem holds (h : Turn place a answer place') (hp : m.perform t a = some (answer, m')) :
    place'.Holds m'.state := by
  cases h with
  | find => exact trivial
  | @turn state hs =>
    cases hp
    intro he
    exact .inr he
  | work h =>
    rcases h with rfl | rfl | rfl <;> exact trivial
  | ready =>
    rcases transition_perform hp with ⟨-, -, hn⟩ | ⟨hm, -⟩
    · simp [Holds, hn]
    · cases hm
  | fail =>
    rcases transition_perform hp with ⟨hm, -⟩ | ⟨-, hb, hn⟩
    · cases hm
    · intro he
      rw [hn] at he
      rw [hb he] at he
      cases he
  | terminate =>
    cases hp
    exact .inr rfl
  | _ => exact trivial

end Turn

theorem Holds.mono {place : Handshaking} {s s' : SessionState} (h : place.Holds s) (hs : s.GoesOn s') :
    place.Holds s' := by
  cases place with
  | away seen => exact fun he => hs.isOver (h he)
  | left => exact hs.isOver h
  | shaken => exact hs.ne_starting h
  | late => exact hs.ne_starting h
  | unbound => exact h
  | _ => exact trivial

end Handshaking

/-! ## The handshakes of a session -/

/-- The task that is started, if it is for a handshake. -/
def Course.newcomers (x : Course) : Occurrence → List TaskId
  | .start .handshake => [x.machine.nextTask]
  | _ => []

def Course.handshakes (x : Course) : List Occurrence → List TaskId
  | [] => []
  | e :: rest => x.newcomers e ++ (x.happen e).handshakes rest

theorem handshakes_concat (x : Course) (occurrences : List Occurrence) (e : Occurrence) :
    x.handshakes (occurrences ++ [e]) = x.handshakes occurrences ++ (x.run occurrences).newcomers e := by
  induction occurrences generalizing x with
  | nil => exact List.append_nil _
  | cons f rest ih =>
    rw [List.cons_append, Course.handshakes, ih, Course.handshakes, List.append_assoc]
    rfl

def Operation.isHandshake : Operation → Bool
  | handshake => true
  | _ => false

theorem newcomers_eq (x : Course) (e : Occurrence) : x.newcomers e = x.startedFor Operation.isHandshake e := by
  cases e with
  | start op => cases op <;> rfl
  | _ => rfl

theorem Handshaking.confines : placement.Confines Operation.isHandshake elsewhere (· ≠ unbound) where
  counts := by simp
  operation op _ := by cases op <;> simp [placement, ofOperation, Operation.isHandshake]
  after place a answer hu ha := by
    have hturn := turn_after ha hu answer
    exact ⟨hturn.ne_unbound, hturn.elsewhere_iff⟩
  spawn place phase hu ha := ofPhase_of_allows ha hu
  resume place phase hu hf := hf.resolve_right hu

abbrev Handshaking.TaskGroup (tasks : List TaskId) (x : Course) (places : TaskId → Handshaking) : Prop :=
  Liaison.TaskGroup Handshaking.placement .elsewhere (· ≠ .unbound) tasks x places

structure HandshakeInvariant (tasks : List TaskId) (x : Course) (places : TaskId → Handshaking) : Prop where
  members : ∀ t, places t ≠ .elsewhere ↔ t ∈ tasks
  unused : ∀ t, x.machine.nextTask ≤ t → places t = .elsewhere ∧ x.machine.results.get? t = none
  old : ∀ d ∈ x.history, d.task < x.machine.nextTask
  marks : ∀ d ∈ x.history, (places d.task).Marks d
  begun : ∀ t, 1 ≤ (places t).rank → t ∈ begun x.history
  asked : (senders "initialize" x.history).Nodup
  told : (senders "initialized" x.history).Nodup
  returned : ∀ t result, x.machine.results.get? t = some result →
    x.machine.tasks.get? t = none ∧ Handshaking.Fits (.finish result) (places t)
  holds : ∀ t, (places t).Holds x.machine.state
  ready : x.machine.state = .starting ∨ x.machine.state.IsOver ∨ ∃ t, places t = .shaken

namespace HandshakeInvariant

variable {tasks : List TaskId} {x : Course} {places : TaskId → Handshaking} {m m' : Machine} {t : TaskId} {a : Action}
  {answer : a.Answer} {place : Handshaking}

theorem ne_unbound (h : HandshakeInvariant tasks x places) (t : TaskId) : places t ≠ .unbound := by
  intro ht
  have hholds := h.holds t
  rw [ht] at hholds
  exact hholds

theorem taskGroup (h : HandshakeInvariant tasks x places) : Handshaking.TaskGroup tasks x places :=
  ⟨h.members, h.ne_unbound, h.unused, h.old, h.returned⟩

/-- A session that is ready was made so by a handshake, and that one does nothing more. -/
theorem ready_after (h : HandshakeInvariant tasks x places) (hturn : Handshaking.Turn (places t) a answer place)
    (hp : x.machine.perform t a = some (answer, m)) :
    m.state = .starting ∨ m.state.IsOver ∨ ∃ u, Function.update places t place u = .shaken := by
  rcases hturn.state hp with hstate | hover | ⟨rfl, -⟩
  · rw [hstate]
    refine h.ready.imp_right (Or.imp_right ?_)
    rintro ⟨u, hu⟩
    refine ⟨u, ?_⟩
    rw [Function.update_of_ne, hu]
    rintro rfl
    exact hturn.ne_shaken hu
  · exact .inr (.inl hover)
  · exact .inr (.inr ⟨t, Function.update_self ..⟩)

theorem deed (h : HandshakeInvariant tasks x places) (hturn : Handshaking.Turn (places t) a answer place)
    (hp : x.machine.perform t a = some (answer, m)) {rest : Table TaskId (Routine Next)} {tasks' : List TaskId}
    (hm : Handshaking.TaskGroup tasks' ⟨{ m with tasks := rest }, x.history ++ [⟨t, a, answer⟩]⟩
      (Function.update places t place)) :
    HandshakeInvariant tasks' ⟨{ m with tasks := rest }, x.history ++ [⟨t, a, answer⟩]⟩
      (Function.update places t place) := by
  have hgoes : x.machine.state.GoesOn m.state := hturn.goesOn hp
  have hplace : place.Holds m.state := hturn.holds hp
  have hready := h.ready_after hturn hp
  refine ⟨hm.members, hm.unused, hm.old, ?marks, ?begun, ?asked, ?told, hm.returned, ?holds, hready⟩
  case marks =>
    intro d hd
    rcases List.mem_append.mp hd with hd | hd
    · by_cases e : d.task = t
      · rw [e, Function.update_self]
        exact hturn.marks (e ▸ h.marks d hd)
      · rw [Function.update_of_ne e]
        exact h.marks d hd
    · rw [List.mem_singleton.mp hd, Function.update_self]
      exact hturn.marks_self
  case begun =>
    intro u hu
    rw [Liaison.begun, filterMap_concat]
    by_cases e : u = t
    · subst e
      rw [Function.update_self] at hu
      by_cases h0 : (places u).rank = 0
      · rw [(hturn.begins_of_rank (t := u) h0 hu).2.2]
        exact List.mem_append_right _ (List.mem_singleton_self u)
      · exact List.mem_append_left _ (h.begun u (Nat.pos_of_ne_zero h0))
    · rw [Function.update_of_ne e] at hu
      exact List.mem_append_left _ (h.begun u hu)
  case asked =>
    exact nodup_senders_concat (fun t => (places t).rank) h.asked (fun d hd => (h.marks d hd).asks)
      hturn.rank_lt_of_sends.1
  case told =>
    exact nodup_senders_concat (fun t => (places t).rank) h.told (fun d hd => (h.marks d hd).tells)
      hturn.rank_lt_of_sends.2
  case holds =>
    intro u
    by_cases e : u = t
    · rw [e, Function.update_self]
      exact hplace
    · rw [Function.update_of_ne e]
      exact (h.holds u).mono hgoes

theorem newcomer (h : HandshakeInvariant tasks x places) (op : Operation) {tasks' : List TaskId}
    (hm : Handshaking.TaskGroup tasks' ⟨x.machine.addTask (op.routine x.machine.options), x.history⟩
      (Function.update places x.machine.nextTask (Handshaking.ofOperation op))) :
    HandshakeInvariant tasks' ⟨x.machine.addTask (op.routine x.machine.options), x.history⟩
      (Function.update places x.machine.nextTask (Handshaking.ofOperation op)) := by
  have hother : ∀ t, t ≠ x.machine.nextTask →
      Function.update places x.machine.nextTask (Handshaking.ofOperation op) t = places t :=
    fun t ht => Function.update_of_ne ht _ _
  refine ⟨hm.members, hm.unused, hm.old, ?marks, ?begun, h.asked, h.told, hm.returned, ?holds, ?ready⟩
  case marks =>
    intro d hd
    rw [hother _ (Nat.ne_of_lt (h.old d hd))]
    exact h.marks d hd
  case begun =>
    intro t ht
    by_cases e : t = x.machine.nextTask
    · rw [e, Function.update_self] at ht
      cases op <;> cases ht
    · rw [hother t e] at ht
      exact h.begun t ht
  case holds =>
    intro t
    by_cases e : t = x.machine.nextTask
    · rw [e, Function.update_self]
      cases op <;> exact trivial
    · rw [hother t e]
      exact h.holds t
  case ready =>
    refine h.ready.imp_right (Or.imp_right ?_)
    rintro ⟨t, ht⟩
    refine ⟨t, ?_⟩
    rw [hother, ht]
    rintro rfl
    rw [(h.unused x.machine.nextTask (Nat.le_refl _)).1] at ht
    cases ht

theorem move (h : HandshakeInvariant tasks x places) (hc : x.machine.KeepsRules Handshaking.placement places)
    {e : Occurrence} {x' : Course} {places' : TaskId → Handshaking}
    (hmove : Handshaking.placement.Move x places e x' places') :
    HandshakeInvariant (tasks ++ x.newcomers e) x' places' := by
  obtain ⟨hm, hchange⟩ := h.taskGroup.move Handshaking.confines hc hmove
  rw [newcomers_eq]
  cases hchange with
  | deed ha hp => exact h.deed (Handshaking.turn_after ha (h.ne_unbound _) _) hp hm
  | @newcomer op ha => exact h.newcomer op hm
  | still hs ho =>
    refine ⟨hm.members, hm.unused, hm.old, h.marks, h.begun, h.asked, h.told, hm.returned, ?_, ?_⟩
    · rw [hs]
      exact h.holds
    · rw [hs]
      exact h.ready

end HandshakeInvariant

/-! ## The beginning -/

theorem first_eq_elsewhere (o : ClientOptions) (t : TaskId) : Handshaking.placement.first o t = .elsewhere := by
  match t with
  | 0 => rfl
  | 1 => rfl
  | 2 => rfl
  | _ + 3 => rfl

theorem handshakeInvariant_begin (o : ClientOptions) (files : FileTree) (hasProcess : Bool) :
    HandshakeInvariant [] (Course.begin o files hasProcess) (Handshaking.placement.first o) := by
  have hfirst := first_eq_elsewhere o
  have hbegin : ∀ x : Course, x.machine.state = .starting → x.machine.results = [] → x.history = [] →
      HandshakeInvariant [] x (Handshaking.placement.first o) := by
    intro x hs hr hh
    refine ⟨?_, ?_, ?_, ?_, ?_, ?_, ?_, ?_, ?_, .inl hs⟩
    · intro t
      simp [hfirst]
    · intro t _
      rw [hr]
      exact ⟨hfirst t, rfl⟩
    · simp [hh]
    · simp [hh]
    · intro t ht
      rw [hfirst] at ht
      cases ht
    · simp [hh, senders]
    · simp [hh, senders]
    · intro t result ht
      rw [hr] at ht
      cases ht
    · intro t
      rw [hfirst]
      exact trivial
  cases hasProcess with
  | false => exact hbegin _ rfl rfl rfl
  | true => exact hbegin _ rfl rfl rfl

end Liaison
