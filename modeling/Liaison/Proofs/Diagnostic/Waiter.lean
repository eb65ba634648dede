import Liaison.Proofs.Diagnostic.Notices
import Liaison.Proofs.Session.Dispatched

/-!
# Waiting for diagnostics

Who waits for diagnostics looks at the cache only after it has counted the notices, and a set is in the cache before its
notice is given. So whatever else happens in between, nobody sleeps while what it waits for is there, unless a notice
is there as well or a task is about to give it; and who is woken in time finds what it has waited for.
-/

namespace Liaison

/-! ## Updates -/

/-- The sets that were taken in arrived in the order of their numbers. -/
def IsNumbered (h : History) : Prop :=
  (h.filterMap Deed.takesIn?).Pairwise fun a b => a.stamp.sequence < b.stamp.sequence

def Deed.givesUp (t : TaskId) : Deed → Bool
  | ⟨u, .awaitNotice _ _, none⟩ => u = t
  | _ => false

def HasGivenUp (t : TaskId) (h : History) : Prop :=
  ∃ d ∈ h, d.givesUp t = true

theorem isNumbered_concat {h : History} {d : Deed} : IsNumbered (h ++ [d]) ↔ IsNumbered h ∧
    ∀ earlier ∈ h.filterMap Deed.takesIn?, ∀ set, d.takesIn? = some set →
      earlier.stamp.sequence < set.stamp.sequence := by
  rw [IsNumbered, filterMap_concat, List.pairwise_append]
  cases d.takesIn? <;> simp [IsNumbered]

theorem HasGivenUp.concat {t : TaskId} {h : History} (hh : HasGivenUp t h) (d : Deed) : HasGivenUp t (h ++ [d]) := by
  obtain ⟨e, he, hup⟩ := hh
  exact ⟨e, List.mem_append_left _ he, hup⟩

section

variable {m m' : Machine} {t : TaskId} {a : Action} {answer : a.Answer}

theorem notices_perform (hp : m.perform t a = some (answer, m')) :
    m.diagnostics.notices ≤ m'.diagnostics.notices ∧
      (a = .giveNotice → m.diagnostics.notices < m'.diagnostics.notices) := by
  rw [diagnostics_perform hp]
  cases a with
  | publish set =>
    simp only [DiagnosticCache.act, DiagnosticCache.publish?]
    split <;> simp
  | forgetVersion uri =>
    simp only [DiagnosticCache.act, DiagnosticCache.forgetVersion]
    split <;> simp
  | giveNotice => exact ⟨Nat.le_succ _, fun _ => Nat.lt_succ_self _⟩
  | _ => exact ⟨Nat.le_refl _, fun h => by cases h⟩

theorem sequenceFor_forgetVersion (c : DiagnosticCache) (uri v : String) :
    (c.forgetVersion uri).sequenceFor v = c.sequenceFor v := by
  unfold DiagnosticCache.sequenceFor DiagnosticCache.snapshot
  rw [DiagnosticCache.get?_forgetVersion]
  split
  · rename_i e
    subst e
    cases c.sets.get? v <;> rfl
  · rfl

/-- The number of the latest set of a document changes only when one is taken in. -/
theorem sequenceFor_perform (hp : m.perform t a = some (answer, m')) (uri : String) :
    m'.diagnostics.sequenceFor uri = m.diagnostics.sequenceFor uri ∨
      ∃ set, Deed.takesIn? ⟨t, a, answer⟩ = some set ∧ m'.diagnostics.sequenceFor uri = set.stamp.sequence := by
  cases a with
  | publish set =>
    simp only [Machine.perform, Machine.publish, DiagnosticCache.publish?] at hp
    split at hp
    · rename_i cache hcache
      split at hcache
      · cases hcache
      · cases hcache
        cases hp
        simp only [DiagnosticCache.sequenceFor, DiagnosticCache.snapshot, Table.get?_insert]
        split
        · exact .inr ⟨set, rfl, rfl⟩
        · exact .inl rfl
    · cases hp
      exact .inl rfl
  | forgetVersion v =>
    cases hp
    exact .inl (sequenceFor_forgetVersion _ _ _)
  | _ =>
    left
    rw [diagnostics_perform hp]
    rfl

end

/-! ## How far waiting has come -/

inductive WaiterPlace where
  | aside
  | fresh (uri : String) (after : Nat)
  | counted (uri : String) (after seen : Nat)
  | looking (uri : String) (after seen : Nat)
  | parked (uri : String) (after seen : Nat)
  | sated (uri : String) (after : Nat)
  | served (after : Nat) (set : DiagnosticSet)
  | late (uri : String)
  | gone

namespace WaiterPlace

def Allows : WaiterPlace → Action → Prop
  | aside, _ => True
  | fresh _ _, a => a = .subscribe
  | counted _ _ _, a => ∃ timeout, a = .deadline timeout
  | looking uri _ _, a => a = .snapshot uri
  | parked _ _ seen, a => ∃ limit, a = .awaitNotice seen limit
  | sated uri _, a => a = .snapshot uri
  | late uri, a => a = .snapshot uri
  | served _ _, _ => False
  | gone, _ => False

def after : WaiterPlace → (a : Action) → a.Answer → WaiterPlace
  | fresh uri n, .subscribe, seen => counted uri n seen
  | looking uri n seen, .snapshot _, set => if n < set.stamp.sequence then sated uri n else parked uri n seen
  | parked uri n _, .awaitNotice _ _, some seen => counted uri n seen
  | parked uri _ _, .awaitNotice _ _, none => late uri
  | sated _ n, .snapshot _, set => served n set
  | late _, .snapshot _, _ => gone
  | place, _, _ => place

def Fits : Next → WaiterPlace → Prop
  | _, aside => True
  | .resume (.awaitingDiagnostics uri n seen _), place => place = counted uri n seen
  | .finish result, place => place = gone ∨ ∃ n set, place = served n set ∧ result = .ok (.diagnostics set)
  | _, _ => False

def ofPhase : Phase → WaiterPlace
  | .awaitingDiagnostics uri n seen _ => looking uri n seen
  | _ => aside

def rules : Rules WaiterPlace :=
  ⟨Allows, after⟩

theorem keeps_aside (r : Routine Next) : r.Keeps rules aside Fits := by
  induction r with
  | done next => cases next <;> trivial
  | step action next ih =>
    refine ⟨trivial, fun answer => ?_⟩
    have haside : rules.after aside action answer = aside := by cases action <;> rfl
    rw [haside]
    exact ih answer

theorem keeps_awaitingDiagnostics (uri : String) (n seen limit : Nat) :
    (awaitingDiagnostics uri n seen limit).Keeps rules (looking uri n seen) Fits := by
  refine ⟨rfl, fun set => ?_⟩
  change Routine.Keeps rules (if n < set.stamp.sequence then _ else _)
    (if n < set.stamp.sequence then sated uri n else parked uri n seen) Fits
  split
  · exact ⟨rfl, fun set => .inr ⟨n, set, rfl, rfl⟩⟩
  · refine ⟨⟨limit, rfl⟩, fun notices => ?_⟩
    cases notices with
    | some notices => exact rfl
    | none => exact ⟨rfl, fun set => .inl rfl⟩

theorem keeps_awaitNewer (uri : String) (n timeout : Nat) :
    (awaitNewer uri n timeout).Keeps rules (fresh uri n) Fits :=
  ⟨rfl, fun _ => ⟨⟨_, rfl⟩, fun _ => rfl⟩⟩

def placement : Placement rules where
  Admits _ := True
  operation _ := aside
  phase := ofPhase
  Fits := Fits
  keeps_operation _ _ _ := keeps_aside _
  keeps_phase p := by
    cases p with
    | awaitingDiagnostics uri n seen limit => exact keeps_awaitingDiagnostics uri n seen limit
    | _ => exact keeps_aside _

end WaiterPlace

/-! ## The task that waits -/

inductive WaiterKnows (uri : String) (n : Nat) (w : TaskId) (x : Course) : WaiterPlace → Prop
  | fresh : WaiterKnows uri n w x (.fresh uri n)
  | counted {seen : Nat} (h : seen ≤ x.machine.diagnostics.notices) : WaiterKnows uri n w x (.counted uri n seen)
  | looking {seen : Nat} (h : seen ≤ x.machine.diagnostics.notices) : WaiterKnows uri n w x (.looking uri n seen)
  | parked {seen : Nat} (h : seen ≤ x.machine.diagnostics.notices)
    (hawake : n < x.machine.diagnostics.sequenceFor uri →
      seen < x.machine.diagnostics.notices ∨ IsUnannounced x.history) : WaiterKnows uri n w x (.parked uri n seen)
  | sated (h : IsNumbered x.history → n < x.machine.diagnostics.sequenceFor uri) : WaiterKnows uri n w x (.sated uri n)
  | served {set : DiagnosticSet} (h : IsNumbered x.history → n < set.stamp.sequence) :
    WaiterKnows uri n w x (.served n set)
  | late (h : HasGivenUp w x.history) : WaiterKnows uri n w x (.late uri)
  | gone (h : HasGivenUp w x.history) : WaiterKnows uri n w x .gone

structure Course.KnowsWaiter (uri : String) (n : Nat) (w : TaskId) (x : Course) (place : WaiterPlace) : Prop where
  stage : WaiterKnows uri n w x place
  old : w < x.machine.nextTask
  cached : ∀ uri, x.machine.diagnostics.sequenceFor uri = 0 ∨
    ∃ set ∈ x.history.filterMap Deed.takesIn?, set.stamp.sequence = x.machine.diagnostics.sequenceFor uri
  told : ∀ set, x.machine.results.get? w = some (.ok (.diagnostics set)) →
    HasGivenUp w x.history ∨ (IsNumbered x.history → n < set.stamp.sequence)

section

variable {uri : String} {n : Nat} {w t : TaskId} {x : Course} {m : Machine} {place : WaiterPlace} {a : Action}
  {answer : a.Answer} {tasks : Table TaskId (Routine Next)}

theorem WaiterKnows.of_same (h : WaiterKnows uri n w x place) (hd : m.diagnostics = x.machine.diagnostics) :
    WaiterKnows uri n w ⟨m, x.history⟩ place := by
  cases h with
  | fresh => exact .fresh
  | counted h => exact .counted (hd ▸ h)
  | looking h => exact .looking (hd ▸ h)
  | parked h hawake => exact .parked (hd ▸ h) (hd ▸ hawake)
  | sated h => exact .sated (hd ▸ h)
  | served h => exact .served h
  | late h => exact .late h
  | gone h => exact .gone h

namespace Course.KnowsWaiter

theorem stage_concat (h : x.KnowsWaiter uri n w place) (hp : x.machine.perform t a = some (answer, m)) :
    WaiterKnows uri n w ⟨{ m with tasks := tasks }, x.history ++ [⟨t, a, answer⟩]⟩ place := by
  obtain ⟨hle, hlt⟩ := notices_perform hp
  cases h.stage with
  | fresh => exact .fresh
  | counted hseen => exact .counted (hseen.trans hle)
  | looking hseen => exact .looking (hseen.trans hle)
  | parked hseen hawake =>
    refine .parked (hseen.trans hle) fun hnew => ?_
    by_cases hnotice : a = .giveNotice
    · exact .inl (hseen.trans_lt (hlt hnotice))
    rcases sequenceFor_perform hp uri with hsame | ⟨set, htakes, -⟩
    · rcases hawake (hsame ▸ hnew) with hseen | hun
      · exact .inl (hseen.trans_le hle)
      · exact .inr (hun.concat hnotice)
    · exact .inr (isUnannounced_concat_of_takesIn (by rw [htakes]; rfl))
  | sated hnew =>
    refine .sated fun hnumbered => ?_
    obtain ⟨hnumbered, hlater⟩ := isNumbered_concat.mp hnumbered
    have hnew := hnew hnumbered
    rcases sequenceFor_perform hp uri with hsame | ⟨set, htakes, hset⟩
    · exact hsame ▸ hnew
    · -- What was there had a number of its own, and the number of what is there now is greater.
      rcases h.cached uri with hzero | ⟨earlier, hearlier, hsequence⟩
      · omega
      · have hgreater := hlater earlier hearlier set htakes
        change n < m.diagnostics.sequenceFor uri
        omega
  | served hnew => exact .served fun hnumbered => hnew (isNumbered_concat.mp hnumbered).1
  | late hup => exact .late (hup.concat _)
  | gone hup => exact .gone (hup.concat _)

theorem stage_turn (h : x.KnowsWaiter uri n w place) (ha : place.Allows a)
    (hp : x.machine.perform w a = some (answer, m)) :
    WaiterKnows uri n w ⟨{ m with tasks := tasks }, x.history ++ [⟨w, a, answer⟩]⟩ (place.after a answer) := by
  cases h.stage with
  | fresh =>
    obtain rfl := ha
    cases hp
    exact .counted (Nat.le_refl _)
  | counted hseen =>
    obtain ⟨timeout, rfl⟩ := ha
    cases hp
    exact .counted hseen
  | looking hseen =>
    obtain rfl := ha
    cases hp
    change WaiterKnows uri n w _ (if n < x.machine.diagnostics.sequenceFor uri then _ else _)
    split
    · rename_i hnew
      exact .sated fun _ => hnew
    · rename_i hold
      exact .parked hseen fun hnew => absurd hnew hold
  | parked hseen hawake =>
    obtain ⟨limit, rfl⟩ := ha
    simp only [Machine.perform] at hp
    split at hp
    · cases hp
      exact .counted (Nat.le_refl _)
    · split at hp
      · cases hp
        exact .late ⟨_, List.mem_append_right _ (List.mem_singleton_self _), by simp [Deed.givesUp]⟩
      · cases hp
  | sated hnew =>
    obtain rfl := ha
    cases hp
    exact .served fun hnumbered => hnew (isNumbered_concat.mp hnumbered).1
  | late hup =>
    obtain rfl := ha
    exact .gone (hup.concat _)
  | served => cases ha
  | gone => cases ha

theorem deed (h : x.KnowsWaiter uri n w place) (hp : x.machine.perform t a = some (answer, m))
    (hn : x.machine.nextTask ≤ m.nextTask) {place' : WaiterPlace}
    (hstage : WaiterKnows uri n w ⟨{ m with tasks := tasks }, x.history ++ [⟨t, a, answer⟩]⟩ place') :
    KnowsWaiter uri n w ⟨{ m with tasks := tasks }, x.history ++ [⟨t, a, answer⟩]⟩ place' := by
  refine ⟨hstage, h.old.trans_le hn, fun v => ?_, fun set hset => ?_⟩
  · rw [filterMap_concat]
    rcases sequenceFor_perform hp v with hsame | ⟨set, htakes, hset⟩
    · rcases h.cached v with hzero | ⟨set, hset, hsequence⟩
      · exact .inl (hsame.trans hzero)
      · exact .inr ⟨set, List.mem_append_left _ hset, hsequence.trans hsame.symm⟩
    · exact .inr ⟨set, by simp [htakes], hset.symm⟩
  · rcases h.told set ((streams_perform hp).results ▸ hset) with hup | hnew
    · exact .inl (hup.concat _)
    · exact .inr fun hnumbered => hnew (isNumbered_concat.mp hnumbered).1

theorem still (h : x.KnowsWaiter uri n w place) (hd : m.diagnostics = x.machine.diagnostics)
    (hn : x.machine.nextTask ≤ m.nextTask) (hr : m.results.get? w = x.machine.results.get? w) :
    KnowsWaiter uri n w ⟨m, x.history⟩ place :=
  ⟨h.stage.of_same hd, h.old.trans_le hn, fun v => hd ▸ h.cached v, fun set hset => h.told set (hr ▸ hset)⟩

theorem not_spawn (h : x.KnowsWaiter uri n w place) (phase : Phase) : ¬ place.Allows (.spawn phase) := by
  cases h.stage <;> simp [WaiterPlace.Allows]

/-- The task that waits is told what it was served, unless it has given up. -/
theorem finish (h : x.KnowsWaiter uri n w place) {result : Result} (hf : WaiterPlace.Fits (.finish result) place)
    (tasks : Table TaskId (Routine Next)) : KnowsWaiter uri n w
      ⟨{ x.machine with tasks := tasks, results := x.machine.results.insert w result }, x.history⟩ place := by
  refine ⟨h.stage.of_same rfl, h.old, h.cached, fun set hset => ?_⟩
  obtain rfl : result = .ok (.diagnostics set) := by simpa using hset
  have hstage := h.stage
  cases hstage with
  | served hnew =>
    rcases hf with hf | ⟨_, _, ⟨⟩, ⟨⟩⟩
    · cases hf
    · exact .inr hnew
  | gone hup => exact .inl hup
  | _ => rcases hf with hf | ⟨_, _, hf, -⟩ <;> cases hf

theorem resume (h : x.KnowsWaiter uri n w place) {phase : Phase} (hf : WaiterPlace.Fits (.resume phase) place)
    (tasks : Table TaskId (Routine Next)) :
    KnowsWaiter uri n w ⟨{ x.machine with tasks := tasks }, x.history⟩ (WaiterPlace.ofPhase phase) := by
  have hstage : WaiterKnows uri n w ⟨{ x.machine with tasks := tasks }, x.history⟩ (WaiterPlace.ofPhase phase) := by
    have hstage := h.stage
    cases phase with
    | awaitingDiagnostics v k seen limit =>
      cases hstage with
      | counted hseen =>
        obtain ⟨⟩ := hf
        exact .looking hseen
      | _ => cases hf
    | _ => cases hstage <;> cases hf
  exact ⟨hstage, h.old, h.cached, h.told⟩

end Course.KnowsWaiter

theorem diagnostics_of_isWorldly {e : Occurrence} (he : e.IsWorldly) (x : Course) :
    (x.happen e).machine.diagnostics = x.machine.diagnostics := by
  cases e with
  | start op => cases he
  | step t => cases he
  | drop t => cases he
  | receive bytes =>
    rw [Course.happen, Machine.receive]
    split <;> rfl
  | _ => rfl

theorem Course.KnowsWaiter.move {x' : Course} {places places' : TaskId → WaiterPlace} {e : Occurrence}
    (h : x.KnowsWaiter uri n w (places w)) (hmove : WaiterPlace.placement.Move x places e x' places') :
    x'.KnowsWaiter uri n w (places' w) := by
  have hnew : w ≠ x.machine.nextTask := Nat.ne_of_lt h.old
  cases hmove with
  | @act t a answer m next ht ha hp htasks hnext =>
    by_cases e : t = w
    · subst e
      rw [Function.update_self]
      exact h.deed hp hnext.ge (h.stage_turn ha hp)
    · rw [Function.update_of_ne (Ne.symm e)]
      exact h.deed hp hnext.ge (h.stage_concat hp)
  | @spawn t phase next ht ha =>
    have e : w ≠ t := by
      rintro rfl
      exact h.not_spawn phase ha
    rw [Function.update_of_ne e, Function.update_of_ne hnew]
    exact h.deed rfl (Nat.le_succ _) (h.stage_concat rfl)
  | @finish t result ht hf =>
    by_cases e : t = w
    · subst e
      exact h.finish hf _
    · exact h.still rfl (Nat.le_refl _) (by simp [Ne.symm e])
  | @resume t phase ht hf =>
    by_cases e : t = w
    · subst e
      rw [Function.update_self]
      exact h.resume hf _
    · rw [Function.update_of_ne (Ne.symm e)]
      exact h.still rfl (Nat.le_refl _) rfl
  | wait hw => exact h
  | start ha =>
    rw [Function.update_of_ne hnew]
    exact h.still rfl (Nat.le_succ _) rfl
  | @drop t r ht =>
    rw [Machine.drop, ht]
    exact h.still rfl (Nat.le_refl _) rfl
  | miss ht => exact h
  | world he =>
    obtain ⟨m, hm, hsame⟩ := happen_of_isWorldly he x
    have hd := diagnostics_of_isWorldly he x
    rw [hm] at hd ⊢
    exact h.still hd hsame.nextTask.ge (by rw [hsame.results])

end

/-! ## Sessions with more tasks -/

namespace Course

def join (x : Course) (r : Routine Next) : Course :=
  { x with machine := x.machine.addTask r }

def joinUpdates (x : Course) (sets : List DiagnosticSet) : Course :=
  sets.foldl (fun x set => x.join (do takeIn set; return .over)) x

structure IsBlank (x : Course) : Prop where
  history : x.history = []
  diagnostics : x.machine.diagnostics = .empty
  results : x.machine.results = []

theorem IsBlank.joinUpdates {x : Course} (h : x.IsBlank) (sets : List DiagnosticSet) :
    (x.joinUpdates sets).IsBlank := by
  induction sets generalizing x with
  | nil => exact h
  | cons set sets ih => exact ih ⟨h.history, h.diagnostics, h.results⟩

theorem isBlank_begin (o : ClientOptions) (files : FileTree) (hasProcess : Bool) :
    (Course.begin o files hasProcess).IsBlank := by
  cases hasProcess <;> exact ⟨rfl, rfl, rfl⟩

theorem keepsRules_joinUpdates {σ : Type} {R : Rules σ} {c : Placement R} {s : σ} {x : Course} {places : TaskId → σ}
    (h : x.machine.KeepsRules c places)
    (hs : ∀ set, (do takeIn set; return .over : Routine Next).Keeps R s c.Fits) (sets : List DiagnosticSet) :
    ∃ places, (x.joinUpdates sets).machine.KeepsRules c places := by
  induction sets generalizing x places with
  | nil => exact ⟨places, h⟩
  | cons set sets ih => exact ih (h.addTask (hs set))

theorem keepsRules_notifying (o : ClientOptions) (files : FileTree) (hasProcess : Bool) (updates : List DiagnosticSet)
    (uri : String) (after timeout : Nat) :
    ∃ places, ((Course.begin o files hasProcess).joinUpdates updates |>.join
      (awaitNewer uri after timeout)).machine.KeepsRules Notifying.placement places := by
  obtain ⟨places, hrules⟩ :=
    keepsRules_joinUpdates (s := Notifying.free) (keepsRules_begin Notifying.placement o files hasProcess)
    (fun set => (Notifying.calm_takeIn set).keeps_bind fun _ => rfl) updates
  exact ⟨_, hrules.addTask (s := .free) ⟨trivial, fun _ => ⟨trivial, fun _ => rfl⟩⟩⟩

theorem watches_join {x : Course} (h : x.IsBlank) (uri : String) (n timeout : Nat) :
    (x.join (awaitNewer uri n timeout)).KnowsWaiter uri n x.machine.nextTask (.fresh uri n) := by
  refine ⟨.fresh, Nat.lt_succ_self _, fun v => .inl ?_, fun set hset => ?_⟩
  · change x.machine.diagnostics.sequenceFor v = 0
    rw [h.diagnostics]
    rfl
  · change x.machine.results.get? _ = _ at hset
    rw [h.results] at hset
    cases hset

end Course

/-- Whatever happens to a session in which any number of updates are made and one task waits: as long as the task is
asleep while there is something new enough, a notice is there for it, or an update has still to give one; and unless a
task was dropped in the middle of an update, one gives its notice next. If the sets came in order, the task is told one
that is new enough, unless its time was over. -/
theorem sleeping_waiter_loses_no_notice (o : ClientOptions) (files : FileTree) (hasProcess : Bool)
    (updates : List DiagnosticSet) (uri : String) (after timeout : Nat) (occurrences : List Occurrence) :
    let x := (Course.begin o files hasProcess).joinUpdates updates
    let w := x.machine.nextTask
    let y := (x.join (awaitNewer uri after timeout)).run occurrences
    (∀ seen limit next, y.machine.tasks.get? w = some (.step (.awaitNotice seen limit) next) →
      after < y.machine.diagnostics.sequenceFor uri →
        seen < y.machine.diagnostics.notices ∨ (IsUnannounced y.history ∧
          ((x.join (awaitNewer uri after timeout)).LetsNotify occurrences → ∃ t, y.machine.IsNotifying t))) ∧
      (IsNumbered y.history → ∀ set, y.machine.results.get? w = some (.ok (.diagnostics set)) →
        ¬ HasGivenUp w y.history → after < set.stamp.sequence) := by
  intro x w y
  obtain ⟨places, hrules⟩ := Course.keepsRules_joinUpdates (keepsRules_begin WaiterPlace.placement o files hasProcess)
    (fun _ => WaiterPlace.keeps_aside _) updates
  obtain ⟨_, hnotifying⟩ := Course.keepsRules_notifying o files hasProcess updates uri after timeout
  have hblank := (Course.isBlank_begin o files hasProcess).joinUpdates updates
  obtain ⟨places', hrules', hwatch⟩ : ∃ places', y.machine.KeepsRules WaiterPlace.placement places' ∧
      y.KnowsWaiter uri after w (places' w) := by
    refine Placement.run (I := fun _ y places => y.KnowsWaiter uri after w (places w))
      (hrules.addTask (WaiterPlace.keeps_awaitNewer uri after timeout)) ?_ ?_ occurrences fun _ _ => trivial
    · rw [Function.update_self]
      exact Course.watches_join hblank uri after timeout
    · exact fun _ _ _ _ _ hwatch hmove => hwatch.move hmove
  constructor
  · intro seen limit next ht hnew
    have hallows := (hrules'.keeps w _ ht).1
    have hstage := hwatch.stage
    generalize places' w = place at hallows hstage
    cases hstage with
    | parked hseen hawake =>
      obtain ⟨limit', he⟩ := hallows
      cases he
      rcases hawake hnew with hnotice | hun
      · exact .inl hnotice
      · exact .inr ⟨hun, fun hlets => exists_isNotifying hnotifying hblank.history hlets hun⟩
    | _ => simp [WaiterPlace.rules, WaiterPlace.Allows] at hallows
  · intro hnumbered set hset hup
    exact (hwatch.told set hset).resolve_left hup hnumbered

def twoSets : List DiagnosticSet :=
  [⟨"file:///a", [], ⟨none, 7⟩⟩, ⟨"file:///b", [], ⟨none, 8⟩⟩]

/-- Tasks 3 and 4 each take in a set, and task 5 waits for one of them. -/
def threeMore : Course :=
  ((Course.begin ⟨"rust", "rust", [0x2F, 0x77], none, 1, 1, .null⟩ ⟨[], []⟩ false).joinUpdates twoSets).join
    (awaitNewer "file:///a" 3 1000)

/-- Task 5 looks before task 3 has taken in anything, and it sleeps between the two steps of that. -/
def asleepBetween : List Occurrence :=
  [.step 5, .step 5, .step 5, .step 5, .step 3]

def awakeAfter : List Occurrence :=
  asleepBetween ++ [.step 3, .step 5, .step 5, .step 5, .step 5, .step 5]

theorem sleeping_waiter_between_publish_and_notice :
    (∃ next, (threeMore.run asleepBetween).machine.tasks.get? 5 = some (.step (.awaitNotice 0 1000) next)) ∧
      3 < (threeMore.run asleepBetween).machine.diagnostics.sequenceFor "file:///a" ∧
      (threeMore.run asleepBetween).machine.diagnostics.notices = 0 ∧
      IsUnannounced (threeMore.run asleepBetween).history ∧
      (∃ t, (threeMore.run asleepBetween).machine.IsNotifying t) ∧
      ∃ set, (threeMore.run awakeAfter).machine.results.get? 5 = some (.ok (.diagnostics set)) ∧
        3 < set.stamp.sequence := by
  have hnotices : (threeMore.run asleepBetween).machine.diagnostics.notices = 0 := by decide +kernel
  have hnew : 3 < (threeMore.run asleepBetween).machine.diagnostics.sequenceFor "file:///a" := by decide +kernel
  have hlets : threeMore.LetsNotify asleepBetween := by
    intro first t later he
    have hmem : .drop t ∈ asleepBetween := by simp [he]
    simp [asleepBetween] at hmem
  have hnumbered : IsNumbered (threeMore.run awakeAfter).history := by
    unfold IsNumbered
    decide +kernel
  have hup : ¬ HasGivenUp 5 (threeMore.run awakeAfter).history := by
    unfold HasGivenUp
    decide +kernel
  obtain ⟨next, ht⟩ : ∃ next, (threeMore.run asleepBetween).machine.tasks.get? 5 =
      some (.step (.awaitNotice 0 1000) next) := ⟨_, rfl⟩
  obtain ⟨set, hset⟩ : ∃ set, (threeMore.run awakeAfter).machine.results.get? 5 =
      some (.ok (.diagnostics set)) := ⟨_, rfl⟩
  have hrun := sleeping_waiter_loses_no_notice ⟨"rust", "rust", [0x2F, 0x77], none, 1, 1, .null⟩ ⟨[], []⟩ false
    twoSets "file:///a" 3 1000
  obtain ⟨hun, hnotifying⟩ := ((hrun asleepBetween).1 0 1000 next ht hnew).resolve_left (Nat.not_lt.mpr hnotices.le)
  have hafter := (hrun awakeAfter).2 hnumbered set hset hup
  exact ⟨⟨next, ht⟩, hnew, hnotices, hun, hnotifying hlets, set, hset, hafter⟩

end Liaison
