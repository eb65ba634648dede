import Liaison.Proofs.Session.Recall
import Liaison.Proofs.Session.OperationPlaces

/-!
# Refusals

An operation that refuses has left no trace: it has handed in no frame and registered no call, and the open documents
and the diagnostics are as they were. That a position is invalid is said of a line or a column of zero and of nothing
else, in whatever state the session is.
-/

namespace Liaison

/-! ## Leaving no trace -/

/-- The calls, the frames, the documents and the diagnostics are the same. -/
structure Machine.Untouched (m m' : Machine) : Prop where
  registry : m'.registry = m.registry
  callers : m'.callers = m.callers
  outbox : m'.outbox = m.outbox
  outlet : m'.outlet = m.outlet
  documents : m'.documents = m.documents
  diagnostics : m'.diagnostics = m.diagnostics

theorem untouched_perform {m m' : Machine} {t : TaskId} {a : Action} {answer : a.Answer}
    (ha : a.isLook = true ∨ a = .state) (hp : m.perform t a = some (answer, m')) : m.Untouched m' := by
  obtain ⟨hreach, hstream⟩ : (∀ part ∈ a.reach, part = .lines) ∧ a.stream? = none := by
    rcases ha with ha | rfl
    · cases a <;> cases ha <;> exact ⟨by simp [Action.reach], rfl⟩
    · exact ⟨by simp [Action.reach], rfl⟩
  have hspares := spares_perform hp
  have hstreams := streams_perform hp
  have hout : ∀ {part : Machine.Part}, part ≠ .lines → part ∉ a.reach := fun hne hmem => hne (hreach _ hmem)
  exact ⟨hspares.registry (hout (by simp)), hspares.callers (hout (by simp)), hstreams.outbox (by simp [hstream]),
    hstreams.outlet (by simp [hstream]), hspares.documents (hout (by simp)), hspares.diagnostics (hout (by simp))⟩

/-- Of all that happens, no step of the task leaves a trace. -/
def Course.LeavesUntouched (x : Course) (t : TaskId) (occurrences : List Occurrence) : Prop :=
  ∀ before after, occurrences = before ++ .step t :: after →
    (x.run before).machine.Untouched (x.run (before ++ [.step t])).machine

theorem Course.LeavesUntouched.concat {x : Course} {t : TaskId} {occurrences : List Occurrence} {e : Occurrence}
    (h : x.LeavesUntouched t occurrences)
    (he : e = .step t → (x.run occurrences).machine.Untouched (x.run (occurrences ++ [e])).machine) :
    x.LeavesUntouched t (occurrences ++ [e]) := by
  intro before after hsplit
  rcases split_concat hsplit with ⟨rfl, rfl, rfl⟩ | ⟨after', -, hbefore⟩
  · exact he rfl
  · exact h before after' hbefore

/-! ## Honest replies -/

def Registry.IsHonest (r : Registry) : Prop :=
  ∀ id reply, r.settled.get? id = some reply → failsLocally reply = false

namespace Registry.IsHonest

variable {r r' : Registry} {id : Nat} {reply : Reply}

theorem shrink (h : r.IsHonest)
    (hs : ∀ id reply, r'.settled.get? id = some reply → r.settled.get? id = some reply) : r'.IsHonest :=
  fun id reply hg => h id reply (hs id reply hg)

theorem settle (h : r.IsHonest) (id : Nat) (hr : failsLocally reply = false) : (r.settle id reply).IsHonest := by
  intro i reply' hg
  rw [get?_settle] at hg
  split at hg
  · cases hg
    exact hr
  · exact h i reply' hg

theorem collect (h : r.IsHonest) (hc : r.collect? id = some (reply, r')) : r'.IsHonest := by
  obtain ⟨reply', -, he⟩ := Option.map_eq_some_iff.mp hc
  cases he
  apply h.shrink
  intro i reply hg
  rw [Table.get?_erase] at hg
  split at hg
  · cases hg
  · exact hg

theorem register (h : r.IsHonest) (hr : r.register id = .ok r') : r'.IsHonest := by
  unfold Registry.register at hr
  split at hr
  · cases hr
  · cases hr
    apply h.shrink
    intro i reply hg
    rw [Table.get?_erase] at hg
    split at hg
    · cases hg
    · exact hg

theorem fulfill (h : r.IsHonest) (id : Nat) (hr : failsLocally reply = false) : (r.fulfill id reply).1.IsHonest := by
  unfold Registry.fulfill
  split
  · exact h.settle id hr
  · split
    · exact h
    · exact h

theorem cancel (h : r.IsHonest) (id : Nat) (reason : String) : (r.cancel id reason).1.IsHonest := by
  unfold Registry.cancel
  split
  · exact h.settle id rfl
  · exact h

theorem expire (h : r.IsHonest) (id : Nat) : (r.expire id).1.IsHonest := by
  unfold Registry.expire
  split
  · exact h
  · exact h

theorem closeAll (h : r.IsHonest) (reason : String) : (r.closeAll reason).IsHonest := by
  intro i reply hg
  rw [get?_closeAll] at hg
  split at hg
  · cases hg
    rfl
  · exact h i reply hg

theorem foldl_abandon (h : r.IsHonest) (calls : List (Nat × TaskId)) :
    (calls.foldl (fun r p => r.abandon p.1) r).IsHonest := by
  induction calls generalizing r with
  | nil => exact h
  | cons p calls ih => exact ih (h.shrink fun _ _ => get?_abandon)

end Registry.IsHonest

section

variable {m m' : Machine} {t : TaskId} {a : Action} {answer : a.Answer}

theorem honest_perform (h : m.registry.IsHonest)
    (ha : ∀ id reply, a = .fulfill id reply → failsLocally reply = false)
    (hp : m.perform t a = some (answer, m')) : m'.registry.IsHonest := by
  cases a with
  | register id =>
    simp only [Machine.perform, Machine.register] at hp
    split at hp
    · rename_i r hr
      cases hp
      exact h.register hr
    · cases hp
      exact h
  | awaitReply id limit =>
    simp only [Machine.perform, Machine.awaitReply] at hp
    split at hp
    · rename_i reply r hc
      cases hp
      exact h.collect hc
    · split at hp <;> cases hp
      exact h
  | collect id =>
    simp only [Machine.perform, Machine.collect] at hp
    split at hp
    · rename_i reply r hc
      cases hp
      exact h.collect hc
    · cases hp
      exact h
  | expire id =>
    cases hp
    exact h.expire id
  | abandon id =>
    cases hp
    exact h.shrink fun _ _ => Registry.get?_abandon
  | fulfill id reply =>
    cases hp
    exact h.fulfill id (ha id reply rfl)
  | cancel id reason =>
    cases hp
    exact h.cancel id reason
  | closeCalls reason =>
    cases hp
    exact h.closeAll reason
  | _ =>
    rw [(spares_perform hp).registry (by simp [Action.reach])]
    exact h

theorem bringsLocal_perform (h : m.registry.IsHonest) (hp : m.perform t a = some (answer, m')) :
    a.bringsLocal answer = false := by
  cases a with
  | register id =>
    simp only [Machine.perform, Machine.register, Registry.register] at hp
    split at hp
    · cases hp
      rfl
    · rename_i e hr
      split at hr <;> cases hr
      cases hp
      rfl
  | awaitReply id limit =>
    cases answer with
    | none => rfl
    | some reply => exact h id reply (given_perform hp (by simp [Deed.given?]))
  | collect id =>
    cases answer with
    | none => rfl
    | some reply => exact h id reply (given_perform hp (by simp [Deed.given?]))
  | _ => rfl

end

/-! ## Runs -/

structure Honest (x : Course) (places : TaskId → OperationPlace) : Prop where
  honest : x.machine.registry.IsHonest
  reached : ∀ t, places t ≠ .astray
  unused : ∀ t, x.machine.nextTask ≤ t → x.machine.results.get? t = none
  old : ∀ d ∈ x.history, d.task < x.machine.nextTask

namespace Honest

open OperationPlace (placement)

variable {x x' : Course} {places places' : TaskId → OperationPlace} {e : Occurrence}

theorem update_ne_astray (h : ∀ t, places t ≠ .astray) (t : TaskId) {place : OperationPlace} (hp : place ≠ .astray) :
    ∀ u, Function.update places t place u ≠ .astray := by
  intro u
  by_cases e : u = t
  · rw [e, Function.update_self]
    exact hp
  · rw [Function.update_of_ne e]
    exact h u

theorem ofPhase_ne_astray (phase : Phase) : OperationPlace.ofPhase phase ≠ .astray := by
  cases phase <;> exact OperationPlace.noConfusion

theorem after_ne_astray {place : OperationPlace} {a : Action} {answer : a.Answer} (hp : place ≠ .astray)
    (hb : a.bringsLocal answer = false) : place.after a answer ≠ .astray := by
  cases place with
  | looking =>
    by_cases hs : a = .state
    · subst hs
      rw [OperationPlace.after_looking_state]
      split <;> exact OperationPlace.noConfusion
    · rw [OperationPlace.after_looking_of_ne hs, hb]
      split <;> exact OperationPlace.noConfusion
  | acting => simp [OperationPlace.after, hb]
  | astray => exact absurd rfl hp
  | _ => exact hp

theorem fulfill_of_allows {place : OperationPlace} {a : Action} (hp : place ≠ .astray) (ha : place.Allows a) (id : Nat)
    (reply : Reply) (e : a = .fulfill id reply) : failsLocally reply = false := by
  subst e
  cases place with
  | astray => exact absurd rfl hp
  | misplaced | refused => exact ha.elim
  | _ => exact ha

theorem move (h : Honest x places) (hc : x.machine.KeepsRules placement places)
    (hmove : placement.Move x places e x' places') : Honest x' places' := by
  cases hmove with
  | @act t a answer m next ht ha hp htasks hn =>
    have hb : a.bringsLocal answer = false := bringsLocal_perform h.honest hp
    have hhonest : m.registry.IsHonest := honest_perform h.honest (fulfill_of_allows (h.reached t) ha) hp
    refine ⟨hhonest, update_ne_astray h.reached t (after_ne_astray (h.reached t) hb), ?_,
      forall_task_lt_concat h.old (hc.old t _ ht) (Nat.le_of_eq hn.symm)⟩
    intro u hu
    simpa [(streams_perform hp).results] using h.unused u (hn ▸ hu)
  | @spawn t phase next ht ha =>
    refine ⟨h.honest, ?_, fun u hu => h.unused u (Nat.le_of_succ_le hu),
      forall_task_lt_concat h.old (hc.old t _ ht) (Nat.le_succ _)⟩
    exact update_ne_astray (update_ne_astray h.reached _ (ofPhase_ne_astray phase)) t
      (after_ne_astray (h.reached t) rfl)
  | @finish t result ht hf =>
    refine ⟨h.honest, h.reached, ?_, h.old⟩
    intro u hu
    have hne : u ≠ t := Nat.ne_of_gt (Nat.lt_of_lt_of_le (hc.old t _ ht) hu)
    simpa [hne] using h.unused u hu
  | @resume t phase ht hf => exact ⟨h.honest, update_ne_astray h.reached t (ofPhase_ne_astray phase), h.unused, h.old⟩
  | wait hw => exact h
  | start ha =>
    exact ⟨h.honest, update_ne_astray h.reached _ OperationPlace.noConfusion,
      fun u hu => h.unused u (Nat.le_of_succ_le hu),
      fun d hd => Nat.lt_succ_of_lt (h.old d hd)⟩
  | @drop t r ht =>
    rw [Machine.drop, ht]
    exact ⟨h.honest.foldl_abandon _, h.reached, h.unused, h.old⟩
  | miss ht => exact h
  | world he =>
    obtain ⟨m, hm, hsame⟩ := happen_of_isWorldly he x
    rw [hm]
    exact ⟨hsame.registry ▸ h.honest, h.reached, fun u hu => hsame.results ▸ h.unused u (hsame.nextTask ▸ hu),
      fun d hd => hsame.nextTask ▸ h.old d hd⟩

end Honest

/-- A task that has begun as an operation that looks at the session first: what it has done since. -/
structure OperationInvariant (op : Operation) (start : Course) (t : TaskId) (occurrences : List Occurrence) (x : Course)
    (places : TaskId → OperationPlace) : Prop where
  old : t < x.machine.nextTask
  part : places t ≠ .aside
  misplaced : places t = .misplaced ↔ op.isMisplaced = true
  leavesUntouched : places t ≠ .acting → start.LeavesUntouched t occurrences
  ready : places t ≠ .refused → ∀ state, ⟨t, .state, state⟩ ∈ x.history → state = .ready
  returned : ∀ result, x.machine.results.get? t = some result →
    x.machine.tasks.get? t = none ∧ OperationPlace.Fits (.finish result) (places t)

namespace OperationInvariant

open OperationPlace (placement)

variable {op : Operation} {start x x' : Course} {t : TaskId} {occurrences : List Occurrence}
  {places places' : TaskId → OperationPlace} {e : Occurrence}

theorem others (h : OperationInvariant op start t occurrences x places) (he : e ≠ .step t) (hp : places' t = places t)
    (hn : x.machine.nextTask ≤ x'.machine.nextTask)
    (hh : ∀ state, ⟨t, .state, state⟩ ∈ x'.history → ⟨t, .state, state⟩ ∈ x.history)
    (hr : x'.machine.results.get? t = x.machine.results.get? t)
    (hgone : x.machine.tasks.get? t = none → x'.machine.tasks.get? t = none) :
    OperationInvariant op start t (occurrences ++ [e]) x' places' := by
  refine ⟨Nat.lt_of_lt_of_le h.old hn, hp ▸ h.part, hp ▸ h.misplaced, ?_, ?_, ?_⟩
  · exact fun hplace => (h.leavesUntouched (hp ▸ hplace)).concat fun hs => absurd hs he
  · exact fun hplace state hd => h.ready (hp ▸ hplace) state (hh state hd)
  · intro result hresult
    obtain ⟨hnone, hfits⟩ := h.returned result (hr ▸ hresult)
    exact ⟨hgone hnone, hp ▸ hfits⟩

theorem moves (h : OperationInvariant op start t occurrences x places) {r : Routine Next}
    (ht : x.machine.tasks.get? t = some r) (hn : x.machine.nextTask ≤ x'.machine.nextTask)
    (hr : x'.machine.results = x.machine.results) (hbefore : places t = .looking ∨ places t = .acting)
    (hafter : places' t = .looking ∨ places' t = .refused ∨ places' t = .acting)
    (huntouched : places' t ≠ .acting → start.LeavesUntouched t (occurrences ++ [e]))
    (hready : places' t ≠ .refused → ∀ state, ⟨t, .state, state⟩ ∈ x'.history → state = .ready) :
    OperationInvariant op start t (occurrences ++ [e]) x' places' := by
  have hplaced : op.isMisplaced ≠ true := by
    rw [ne_eq, ← h.misplaced]
    rcases hbefore with hp | hp <;> simp [hp]
  refine ⟨Nat.lt_of_lt_of_le h.old hn, ?_, ?_, huntouched, hready, ?_⟩
  · rcases hafter with hp | hp | hp <;> simp [hp]
  · rcases hafter with hp | hp | hp <;> simp [hp, hplaced]
  · intro result hresult
    have hnone := (h.returned result (hr ▸ hresult)).1
    simp [ht] at hnone

theorem looking_or_acting (h : OperationInvariant op start t occurrences x places) (hx : Honest x places) {a : Action}
    (ha : (places t).Allows a) : places t = .looking ∨ places t = .acting := by
  have hpart := h.part
  have hreached := hx.reached t
  cases hp : places t with
  | looking => exact .inl rfl
  | acting => exact .inr rfl
  | misplaced | refused =>
    rw [hp] at ha
    exact ha.elim
  | aside => exact absurd hp hpart
  | astray => exact absurd hp hreached

theorem deed (h : OperationInvariant op start t occurrences x places) (hx : Honest x places) {a : Action}
    {answer : a.Answer} {m : Machine} {r : Routine Next} (ht : x.machine.tasks.get? t = some r)
    (ha : (places t).Allows a) (hp : x.machine.perform t a = some (answer, m))
    (hn : x.machine.nextTask ≤ x'.machine.nextTask)
    (hh : x'.history = x.history ++ [⟨t, a, answer⟩]) (hr : x'.machine.results = x.machine.results)
    (hplace : places' t = (places t).after a answer)
    (huntouched : x.machine.Untouched m → start.LeavesUntouched t occurrences →
      start.LeavesUntouched t (occurrences ++ [e])) :
    OperationInvariant op start t (occurrences ++ [e]) x' places' := by
  have hb : a.bringsLocal answer = false := bringsLocal_perform hx.honest hp
  have hbefore := h.looking_or_acting hx ha
  -- Reading the state is the only look after which the task may have refused, so it is apart from all others.
  by_cases hs : a = .state
  · subst hs
    have hl : places t = .looking := by
      rcases hbefore with hl | hl
      · exact hl
      · rw [hl] at ha
        exact ha.elim
    have hkept : start.LeavesUntouched t (occurrences ++ [e]) :=
      huntouched (untouched_perform (.inr rfl) hp) (h.leavesUntouched (by simp [hl]))
    rw [hl, OperationPlace.after_looking_state] at hplace
    apply h.moves ht hn hr hbefore
    · rw [hplace]
      split
      · exact .inl rfl
      · exact .inr (.inl rfl)
    · exact fun _ => hkept
    · intro hne state hd
      rw [hh] at hd
      rcases List.mem_append.mp hd with hd | hd
      · exact h.ready (by simp [hl]) state hd
      · cases List.mem_singleton.mp hd
        by_contra hunready
        exact hne (by rw [hplace, if_neg hunready])
  · have hready : ∀ state, ⟨t, .state, state⟩ ∈ x'.history → state = .ready := by
      intro state hd
      rw [hh] at hd
      rcases List.mem_append.mp hd with hd | hd
      · refine h.ready ?_ state hd
        rcases hbefore with hp | hp <;> simp [hp]
      · cases List.mem_singleton.mp hd
        exact absurd rfl hs
    rcases hbefore with hl | hacting
    · rw [hl, OperationPlace.after_looking_of_ne hs, hb] at hplace
      apply h.moves ht hn hr (.inl hl)
      · rw [hplace]
        split
        · exact .inl rfl
        · exact .inr (.inr rfl)
      · intro hne
        have hlook : a.isLook = true := by
          by_contra hlook
          simp [hplace, hlook] at hne
        exact huntouched (untouched_perform (.inl hlook) hp) (h.leavesUntouched (by simp [hl]))
      · exact fun _ => hready
    · have hstill : places' t = .acting := by simp [hplace, hacting, OperationPlace.after, hb]
      exact h.moves ht hn hr (.inr hacting) (.inr (.inr hstill)) (fun hne => absurd hstill hne) fun _ => hready

theorem move (h : OperationInvariant op start t occurrences x places) (hx : Honest x places)
    (hmove : placement.Move x places e x' places')
    (hstart : start.run occurrences = x) (hstart' : start.run (occurrences ++ [e]) = x') :
    OperationInvariant op start t (occurrences ++ [e]) x' places' := by
  have huntouched : x.machine.Untouched x'.machine → start.LeavesUntouched t occurrences →
      start.LeavesUntouched t (occurrences ++ [e]) := by
    intro hsame hm
    apply hm.concat
    rw [hstart, hstart']
    exact fun _ => hsame
  have hnew : t ≠ x.machine.nextTask := Nat.ne_of_lt h.old
  cases hmove with
  | @act u a answer m next hu ha hp htasks hn =>
    have hresults := (streams_perform hp).results
    by_cases e : u = t
    · subst e
      refine h.deed hx hu ha hp (Nat.le_of_eq hn.symm) rfl hresults (Function.update_self ..) ?_
      intro hsame
      exact huntouched ⟨hsame.registry, hsame.callers, hsame.outbox, hsame.outlet, hsame.documents, hsame.diagnostics⟩
    · apply h.others (by simpa using e) (Function.update_of_ne (Ne.symm e) ..) (Nat.le_of_eq hn.symm)
      · intro state hd
        rcases List.mem_append.mp hd with hd | hd
        · exact hd
        · cases List.mem_singleton.mp hd
          exact absurd rfl e
      · simp [hresults]
      · intro hnone
        simpa [Ne.symm e, htasks] using hnone
  | @spawn u phase next hu ha =>
    by_cases e : u = t
    · subst e
      exact h.deed hx hu ha (m := x.machine.addTask phase.routine) rfl (Nat.le_succ _) rfl rfl (Function.update_self ..)
        fun _ => huntouched ⟨rfl, rfl, rfl, rfl, rfl, rfl⟩
    · refine h.others (by simpa using e) ?_ (Nat.le_succ _) ?_ rfl ?_
      · rw [Function.update_of_ne (Ne.symm e), Function.update_of_ne hnew]
      · intro state hd
        rcases List.mem_append.mp hd with hd | hd
        · exact hd
        · cases List.mem_singleton.mp hd
      · intro hnone
        simpa [Machine.addTask, Ne.symm e, hnew] using hnone
  | @finish u result hu hf =>
    by_cases e : u = t
    · subst e
      refine ⟨h.old, h.part, h.misplaced,
        fun hplace => huntouched ⟨rfl, rfl, rfl, rfl, rfl, rfl⟩ (h.leavesUntouched hplace), h.ready, ?_⟩
      intro result' hresult
      obtain rfl : result = result' := by simpa using hresult
      exact ⟨by simp, hf⟩
    · refine h.others (by simpa using e) rfl (Nat.le_refl _) (fun _ hd => hd) ?_ ?_
      · simp [Ne.symm e]
      · intro hnone
        simp [hnone]
  | @resume u phase hu hf =>
    by_cases e : u = t
    · subst e
      have hreached := hx.reached u
      have hpart := h.part
      have hbefore : (places u = .looking ∨ places u = .acting) ∧ OperationPlace.ofPhase phase = .acting := by
        cases hp : places u with
        | looking => exact ⟨.inl rfl, by rwa [hp] at hf⟩
        | acting => exact ⟨.inr rfl, by rwa [hp] at hf⟩
        | misplaced | refused =>
          rw [hp] at hf
          exact hf.elim
        | aside => exact absurd hp hpart
        | astray => exact absurd hp hreached
      obtain ⟨hbefore, hphase⟩ := hbefore
      have hstill : Function.update places u (placement.phase phase) u = .acting := by
        rw [Function.update_self]
        exact hphase
      refine h.moves hu (Nat.le_refl _) rfl hbefore (.inr (.inr hstill)) (fun hne => absurd hstill hne) ?_
      intro _
      apply h.ready
      rcases hbefore with hp | hp <;> simp [hp]
    · refine h.others (by simpa using e) (Function.update_of_ne (Ne.symm e) ..) (Nat.le_refl _) (fun _ hd => hd) rfl ?_
      intro hnone
      simpa [Ne.symm e] using hnone
  | wait hw =>
    exact ⟨h.old, h.part, h.misplaced,
      fun hplace => huntouched ⟨rfl, rfl, rfl, rfl, rfl, rfl⟩ (h.leavesUntouched hplace), h.ready,
      h.returned⟩
  | start ha =>
    refine h.others (by simp) (Function.update_of_ne hnew ..) (Nat.le_succ _) (fun _ hd => hd) rfl ?_
    intro hnone
    simpa [Machine.addTask, hnew] using hnone
  | @drop u r hu =>
    rw [Machine.drop, hu]
    refine h.others (by simp) rfl (Nat.le_refl _) (fun _ hd => hd) rfl ?_
    intro hnone
    change (x.machine.tasks.erase u).get? t = none
    simp [hnone]
  | miss hu => exact h.others (by simp) rfl (Nat.le_refl _) (fun _ hd => hd) rfl id
  | world he =>
    obtain ⟨m, hm, hsame⟩ := happen_of_isWorldly he x
    have hne : e ≠ .step t := by
      rintro rfl
      cases he
    rw [hm]
    exact h.others hne rfl (Nat.le_of_eq hsame.nextTask.symm) (fun _ hd => hd) (by rw [hsame.results])
      fun hnone => hsame.tasks ▸ hnone

end OperationInvariant

open OperationPlace (placement)

theorem honest_run (o : ClientOptions) (files : FileTree) (hasProcess : Bool) (occurrences : List Occurrence) :
    ∃ places, ((Course.connected o files hasProcess).run occurrences).machine.KeepsRules placement places ∧
      Honest ((Course.connected o files hasProcess).run occurrences) places := by
  have hconnecting : connecting.Keeps OperationPlace.rules .aside placement.Fits := ⟨trivial, fun _ => trivial⟩
  have hplace : ∀ t, placement.connected o files hasProcess .aside t = .aside :=
    Placement.connected_eq rfl rfl (fun _ _ => rfl) rfl o files hasProcess
  apply Placement.run (I := fun _ x places => Honest x places)
    (keepsRules_connected placement o files hasProcess hconnecting)
  · have hblank : (Course.connected o files hasProcess).machine.results = [] ∧
        (Course.connected o files hasProcess).machine.registry = .empty := by
      cases hasProcess <;> exact ⟨rfl, rfl⟩
    refine ⟨?_, ?_, ?_, fun d hd => by cases hd⟩
    · rw [hblank.2]
      exact fun id reply hg => by cases hg
    · exact fun t => by simp [hplace]
    · rw [hblank.1]
      exact fun _ _ => rfl
  · exact fun _ _ _ _ hc h hmove => h.move hc hmove
  · exact fun _ _ => trivial

theorem operationInvariant_start {x : Course} {places : TaskId → OperationPlace}
    (hc : x.machine.KeepsRules placement places) (hx : Honest x places) {op : Operation}
    (hop : op.wanted? = some .ready) :
    let places' := Function.update places x.machine.nextTask (OperationPlace.ofOperation op)
    (x.happen (.start op)).machine.KeepsRules placement places' ∧ Honest (x.happen (.start op)) places' ∧
      OperationInvariant op (x.happen (.start op)) x.machine.nextTask [] (x.happen (.start op)) places' := by
  have hplace : OperationPlace.ofOperation op = .misplaced ∧ op.isMisplaced = true ∨
      OperationPlace.ofOperation op = .looking ∧ op.isMisplaced = false := by
    unfold OperationPlace.ofOperation
    cases op.isMisplaced <;> simp
  refine ⟨hc.addTask (OperationPlace.keeps_wanted _ hop), ⟨hx.honest, ?_, ?_, ?_⟩,
    ⟨Nat.lt_succ_self _, ?_, ?_, ?_, ?_, ?_⟩⟩
  · apply Honest.update_ne_astray hx.reached
    rcases hplace with ⟨hp, -⟩ | ⟨hp, -⟩ <;> simp [hp]
  · exact fun u hu => hx.unused u (Nat.le_of_succ_le hu)
  · exact fun d hd => Nat.lt_succ_of_lt (hx.old d hd)
  · rw [Function.update_self]
    rcases hplace with ⟨hp, -⟩ | ⟨hp, -⟩ <;> simp [hp]
  · rw [Function.update_self]
    rcases hplace with ⟨hp, hm⟩ | ⟨hp, hm⟩ <;> simp [hp, hm]
  · intro _ before after he
    simp at he
  · exact fun _ state hd => absurd (hx.old _ hd) (Nat.lt_irrefl _)
  · intro result hresult
    have hnone := hx.unused x.machine.nextTask (Nat.le_refl _)
    exact absurd (hnone.symm.trans hresult) (by simp)

theorem operationInvariant_run (o : ClientOptions) (files : FileTree) (hasProcess : Bool)
    (first later : List Occurrence) {op : Operation} (hop : op.wanted? = some .ready) :
    let x := (Course.connected o files hasProcess).run first
    ∃ places, Honest ((x.happen (.start op)).run later) places ∧ OperationInvariant op (x.happen (.start op))
      x.machine.nextTask later ((x.happen (.start op)).run later) places := by
  intro x
  obtain ⟨places, hc, hx⟩ := honest_run o files hasProcess first
  obtain ⟨hc, hx, hinvariant⟩ := operationInvariant_start hc hx hop
  obtain ⟨places', -, h⟩ := Placement.run (I := fun occurrences y places => Honest y places ∧
    OperationInvariant op (x.happen (.start op)) x.machine.nextTask occurrences y places) hc ⟨hx, hinvariant⟩
    (fun _ _ _ _ hc h hmove => ⟨h.1.move hc hmove, h.2.move h.1 hmove rfl rfl⟩) later fun _ _ => trivial
  exact ⟨places', h⟩

/-- The error is found without the server, or it is that the session is over, as the task found itself. -/
def IsRefusal (h : History) (t : TaskId) : CallError → Prop
  | .sessionClosed _ => ∃ state : SessionState, state ≠ .ready ∧ ⟨t, .state, state⟩ ∈ h
  | e => e.isLocal = true

theorem not_placed_iff {result : Result} :
    ¬ OperationPlace.Placed result ↔ ∃ line column, result = .error (.invalidPosition line column) := by
  simp [OperationPlace.Placed]

/-- Whatever happens to a session, from its being connected on: an operation that looks at the session first, and
returns an error that it finds without the server or that the session is over, has touched nothing. It returns that
the position is invalid exactly if it was given a line or a column of zero, and then with its first step. -/
theorem refused_operation_leaves_untouched (o : ClientOptions) (files : FileTree) (hasProcess : Bool)
    (first later : List Occurrence) {op : Operation} (hop : op.wanted? = some .ready) :
    let x := (Course.connected o files hasProcess).run first
    let t := x.machine.nextTask
    let y := x.happen (.start op)
    let z := y.run later
    (∀ e, z.machine.results.get? t = some (.error e) → IsRefusal z.history t e →
      x.machine.Untouched y.machine ∧ y.LeavesUntouched t later) ∧
    (∀ result, z.machine.results.get? t = some result →
      ((∃ line column, result = .error (.invalidPosition line column)) ↔ op.isMisplaced = true)) ∧
    (∀ place, op.place? = some place → place.line = 0 ∨ place.column = 0 →
      (y.happen (.step t)).machine.results.get? t = some (.error (.invalidPosition place.line place.column))) := by
  intro x t y z
  obtain ⟨places, hhonest, h⟩ := operationInvariant_run o files hasProcess first later hop
  refine ⟨?_, ?_, ?_⟩
  · intro e he hrefusal
    refine ⟨⟨rfl, rfl, rfl, rfl, rfl, rfl⟩, h.leavesUntouched ?_⟩
    intro hacting
    have hfits := (h.returned _ he).2
    rw [hacting] at hfits
    cases e with
    | sessionClosed reason =>
      obtain ⟨state, hunready, hd⟩ := hrefusal
      exact hunready (h.ready (by simp [hacting]) state hd)
    | _ => exact Bool.noConfusion (hfits.symm.trans hrefusal)
  · intro result hresult
    have hfits := (h.returned _ hresult).2
    rw [← h.misplaced, ← not_placed_iff]
    have hpart := h.part
    have hreached := hhonest.reached t
    cases hp : places t with
    | misplaced =>
      rw [hp] at hfits
      exact iff_of_true hfits rfl
    | aside => exact absurd hp hpart
    | astray => exact absurd hp hreached
    | looking | refused =>
      rw [hp] at hfits
      exact iff_of_false (fun hn => hn hfits) OperationPlace.noConfusion
    | acting =>
      rw [hp] at hfits
      exact iff_of_false (fun hn => hn (OperationPlace.placed_of_failsLocally hfits)) OperationPlace.noConfusion
  · intro place hplace hz
    have ht : y.machine.tasks.get? t = some (.done (.finish (.error (.invalidPosition place.line place.column)))) := by
      rw [← OperationPlace.routine_of_place x.machine.options hplace hz]
      exact (Table.get?_insert ..).trans (if_pos rfl)
    rw [Course.happen, Machine.advance, ht]
    simp

def madeReady : List Occurrence :=
  List.flatten [
    turns 2 [3], [.start .handshake], turns 9 [4, 0],
    [.receive (Frame.write (Message.reply (.ofNat 1) (.obj [])).toJson)], turns 9 [1, 4, 0]]

/-- A file that is not there is asked about, while the writer is at work too. -/
theorem refused_operation_missing_file :
    let x := (Course.connected plainOptions ⟨[], []⟩ false).run madeReady
    let y := x.happen (.start (.hover ⟨[0x61], 1, 1⟩ none))
    x.machine.state = .ready ∧ x.machine.nextTask = 5 ∧
      (y.run (turns 9 [5, 0])).machine.results.get? 5 = some (.error (.file .notFound)) ∧
      x.machine.Untouched y.machine ∧ y.LeavesUntouched 5 (turns 9 [5, 0]) := by
  intro x y
  have hnext : x.machine.nextTask = 5 := by decide +kernel
  have hresult : (y.run (turns 9 [5, 0])).machine.results.get? 5 = some (.error (.file .notFound)) := by
    have hfailed : ((y.run (turns 9 [5, 0])).machine.results.get? 5).map (Except.map fun _ => ()) =
        some (.error (.file .notFound)) := by decide +kernel
    obtain ⟨result, hget, he⟩ := Option.map_eq_some_iff.mp hfailed
    cases result with
    | ok found => cases he
    | error e =>
      cases he
      exact hget
  have huntouched := (refused_operation_leaves_untouched plainOptions ⟨[], []⟩ false madeReady (turns 9 [5, 0])
    (rfl : (Operation.hover ⟨[0x61], 1, 1⟩ none).wanted? = some .ready)).1 (.file .notFound)
  rw [hnext] at huntouched
  exact ⟨by decide +kernel, hnext, hresult, huntouched hresult rfl⟩

end Liaison
