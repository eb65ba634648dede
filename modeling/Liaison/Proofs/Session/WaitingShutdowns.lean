import Liaison.Proofs.Session.Readiness

/-!
# Shutdowns that are forestalled

Who shuts a session down looks at it, and then leaves the state that it found. If that fails it takes it that somebody
else is about to end the session, and waits. But the session may only have been started in between, or become ready:
then the task waits for an end that nobody is working on. Nothing else ever makes it wait in vain.
-/

namespace Liaison

/-- The session goes on, but not to its end. -/
inductive SessionState.Advances : SessionState → SessionState → Prop
  | start : Advances .notStarted .starting
  | greet : Advances .starting .ready

/-- The task found the session in a state, somebody made it go on, and then the task could not leave that state. -/
def IsForestalled (t : TaskId) (h : History) : Prop :=
  ∃ (s s' : SessionState) (u : TaskId), s.Advances s' ∧
    [⟨t, .state, s⟩, ⟨u, .transition s s', true⟩, ⟨t, .transition s .shuttingDown, false⟩].Sublist h

def Machine.awaitsEnd (m : Machine) (t : TaskId) : Bool :=
  match m.tasks.get? t with
  | some (.step .awaitEnd _) => true
  | _ => false

theorem exists_of_awaitsEnd {m : Machine} {t : TaskId} (h : m.awaitsEnd t = true) :
    ∃ next, m.tasks.get? t = some (.step .awaitEnd next) := by
  unfold Machine.awaitsEnd at h
  split at h
  · rename_i next ht
    exact ⟨next, ht⟩
  · cases h

theorem IsForestalled.concat {t : TaskId} {h : History} (hh : IsForestalled t h) (d : Deed) :
    IsForestalled t (h ++ [d]) := by
  obtain ⟨s, s', u, ha, hsub⟩ := hh
  exact ⟨s, s', u, ha, hsub.trans (List.sublist_append_left h [d])⟩

namespace ShuttingDown

variable {place place' : ShuttingDown} {a : Action} {answer : a.Answer} {m m' : Machine} {t : TaskId}

/-- The session stays as it is, is on its way to its end, or goes on by what the task does. -/
theorem Turn.state_perform (h : Turn place a answer place') (hp : m.perform t a = some (answer, m')) :
    m'.state = m.state ∨ m'.state.IsOver ∨
      m.state.Advances m'.state ∧ (⟨t, a, answer⟩ : Deed) = ⟨t, .transition m.state m'.state, true⟩ := by
  cases a with
  | transition before next =>
    rcases transition_perform hp with ⟨rfl, hb, hn⟩ | ⟨-, -, hn⟩
    · cases h with
      | choose hs => exact .inr (.inl (.inl hn))
      | work _ ha => cases ha
      | other ha =>
        refine .inr (.inr ?_)
        rw [hb, hn]
        rcases ha with ⟨rfl, rfl⟩ | ⟨rfl, rfl⟩
        · exact ⟨.start, rfl⟩
        · exact ⟨.greet, rfl⟩
    · exact .inl hn
  | terminate =>
    cases hp
    exact .inr (.inl (.inr rfl))
  | _ => exact .inl ((spares_perform hp).state (by simp [Action.reach]))

def WaitReason (t : TaskId) (x : Course) : ShuttingDown → Prop
  | found s => ⟨t, .state, s⟩ ∈ x.history ∧ (x.machine.state = s ∨ x.machine.state.IsOver ∨
    ∃ s' u, s.Advances s' ∧ [⟨t, .state, s⟩, ⟨u, .transition s s', true⟩].Sublist x.history)
  | waiting => x.machine.state.IsOver ∨ IsForestalled t x.history
  | _ => True

theorem WaitReason.of_same {x : Course} (h : place.WaitReason t x) (hs : m.state = x.machine.state) :
    place.WaitReason t ⟨m, x.history⟩ := by
  cases place with
  | found s => exact ⟨h.1, hs ▸ h.2⟩
  | waiting => exact h.imp (fun hover => hs ▸ hover) id
  | _ => trivial

theorem waitReason_concat {x : Course} {u : TaskId} {tasks : Table TaskId (Routine Next)} {other : ShuttingDown}
    (h : other.WaitReason u x) (hturn : Turn place a answer place') (hp : x.machine.perform t a = some (answer, m)) :
    other.WaitReason u ⟨{ m with tasks := tasks }, x.history ++ [⟨t, a, answer⟩]⟩ := by
  have hover : x.machine.state.IsOver → m.state.IsOver := fun hs =>
    SessionState.isOver_iff.mpr (Nat.le_trans (SessionState.isOver_iff.mp hs) (hturn.stage_le hp))
  cases other with
  | found s =>
    obtain ⟨hlook, hstate⟩ := h
    refine ⟨List.mem_append_left _ hlook, ?_⟩
    rcases hstate with rfl | hs | ⟨s', v, ha, hsub⟩
    · rcases hturn.state_perform hp with hsame | hs | ⟨ha, hd⟩
      · exact .inl hsame
      · exact .inr (.inl hs)
      · rw [hd]
        exact .inr (.inr ⟨_, t, ha, (List.singleton_sublist.mpr hlook).append (List.Sublist.refl _)⟩)
    · exact .inr (.inl (hover hs))
    · exact .inr (.inr ⟨s', v, ha, hsub.trans (List.sublist_append_left _ _)⟩)
  | waiting => exact h.imp hover fun hh => hh.concat _
  | _ => trivial

theorem waitReason_turn {x : Course} {tasks : Table TaskId (Routine Next)} (h : place.WaitReason t x)
    (hturn : Turn place a answer place') (hp : x.machine.perform t a = some (answer, m)) :
    place'.WaitReason t ⟨{ m with tasks := tasks }, x.history ++ [⟨t, a, answer⟩]⟩ := by
  cases hturn with
  | find hs =>
    cases hp
    exact ⟨by simp, .inl rfl⟩
  | wait =>
    simp only [Machine.perform, Option.some.injEq, Prod.mk.injEq] at hp
    obtain ⟨hstate, rfl⟩ := hp
    exact .inl (.inl hstate)
  | yield hs =>
    obtain ⟨hmoved, -⟩ | ⟨-, hleft, hsame⟩ := transition_perform hp
    · cases hmoved
    · obtain ⟨-, rfl | hover | ⟨s', u, ha, hsub⟩⟩ := h
      · exact absurd (.inr (hleft rfl)) hs
      · exact .inl (hsame.symm ▸ hover)
      · exact .inr ⟨_, s', u, ha, hsub.append (List.Sublist.refl _)⟩
  | work h => rcases h with rfl | rfl | rfl <;> trivial
  | kill h => rcases h with rfl | rfl <;> trivial
  | _ => trivial

end ShuttingDown

/-! ## Whole runs -/

structure ShutdownsWait (x : Course) (places : TaskId → ShuttingDown) : Prop where
  shutdowns : ShutdownInvariant x places
  waitReason : ∀ t, (places t).WaitReason t x

theorem ShutdownsWait.change {members : List TaskId} {x x' : Course} {places places' : TaskId → ShuttingDown}
    (hm : ShuttingDown.TaskGroup members x places) (h : ShutdownsWait x places)
    (hc : ShuttingDown.placement.Change x places x' places') :
    ShutdownsWait x' places' := by
  refine ⟨(h.shutdowns.change hm hc).1, fun t => ?_⟩
  cases hc with
  | @deed u a answer m tasks ha hp =>
    have hturn := ShuttingDown.turn_after ha (hm.counts u) answer
    by_cases e : t = u
    · subst e
      rw [Function.update_self]
      exact ShuttingDown.waitReason_turn (h.waitReason t) hturn hp
    · rw [Function.update_of_ne e]
      exact ShuttingDown.waitReason_concat (h.waitReason t) hturn hp
  | @newcomer op ha =>
    by_cases e : t = x.machine.nextTask
    · subst e
      rw [Function.update_self]
      cases op <;> trivial
    · rw [Function.update_of_ne e]
      exact h.waitReason t
  | still hs ho => exact (h.waitReason t).of_same hs

/-- However many shut a session down, and whatever happens beside them: whoever waits for the end of the session waits
for somebody who is ending it, or was forestalled. -/
theorem waiting_shutdown_forestalled (o : ClientOptions) (files : FileTree) (hasProcess : Bool)
    (occurrences : List Occurrence)
    (h : ∀ op, .start op ∈ occurrences → op ≠ .shutdown → op.Avoids ["shutdown", "exit"]) :
    let x := Course.connected o files hasProcess
    ∀ t ∈ x.tasksFor Operation.isShutdown occurrences, (x.run occurrences).machine.awaitsEnd t = true →
      (x.run occurrences).machine.state.IsOver ∨ IsForestalled t (x.run occurrences).history := by
  intro x t ht hwaits
  obtain ⟨next, hnext⟩ := exists_of_awaitsEnd hwaits
  have hallows : ShuttingDown.elsewhere.Allows (.transition .notStarted .starting) := .inl ⟨rfl, rfl⟩
  have hconnecting : connecting.Keeps ShuttingDown.rules .elsewhere ShuttingDown.placement.Fits :=
    (Routine.calm_act (ShuttingDown.tolerates_elsewhere hallows)).keeps_bind fun _ => .inr (.inr (.inl rfl))
  obtain ⟨hm, hx⟩ := shutdownInvariant_connected o files hasProcess
  have hreason : ∀ t, (ShuttingDown.placement.connected o files hasProcess .elsewhere t).WaitReason t x := by
    intro t
    rw [shuttingDown_connected_eq]
    trivial
  obtain ⟨places, hrules, hm, hx⟩ := TaskGroup.run ShuttingDown.confines
    (keepsRules_connected ShuttingDown.placement o files hasProcess hconnecting) hm ⟨hx, hreason⟩
    (fun _ _ _ _ _ hm hx hchange => ShutdownsWait.change hm hx hchange) occurrences h
  have hplace := (hrules.keeps t _ hnext).1
  have hstage := hx.shutdowns.stage t
  have hout := hx.waitReason t
  have hmember : places t ≠ .elsewhere := (hm.members t).mpr ht
  have hcounts := hm.counts t
  generalize places t = place at hplace hstage hout hmember hcounts
  cases place with
  | waiting => exact hout
  | chosen | asked | told => exact .inl (SessionState.isOver_iff.mpr hstage)
  | elsewhere => exact absurd rfl hmember
  | unbound => exact absurd rfl hcounts
  | _ => simp [ShuttingDown.rules, ShuttingDown.Allows] at hplace

/-- A handshake makes the session ready when task 5 has just looked at it, so as to shut it down. -/
def forestalled : List Occurrence :=
  List.flatten [
    turns 2 [3], [.start .handshake, .start .shutdown], turns 9 [4, 0],
    [.receive (Frame.write (Message.reply (.ofNat 1) (.obj [])).toJson)], turns 8 [1, 4, 0],
    [.step 5, .step 4, .step 5]]

theorem waiting_shutdown_forestalled_greeting :
    let x := Course.connected plainOptions ⟨[], []⟩ false
    x.tasksFor Operation.isShutdown forestalled = [5] ∧ (x.run forestalled).machine.awaitsEnd 5 = true ∧
      (x.run forestalled).machine.state = .ready ∧ IsForestalled 5 (x.run forestalled).history := by
  intro x
  have havoids : ∀ op, .start op ∈ forestalled → op ≠ .shutdown → op.Avoids ["shutdown", "exit"] := by
    intro op hop hne
    simp [forestalled] at hop
    rcases hop with rfl | rfl
    · simp [Operation.Avoids, Operation.methods]
    · exact absurd rfl hne
  have htasks : x.tasksFor Operation.isShutdown forestalled = [5] := by decide +kernel
  have hwaits : (x.run forestalled).machine.awaitsEnd 5 = true := by decide +kernel
  have hready : (x.run forestalled).machine.state = .ready := by decide +kernel
  have hrun :=
    waiting_shutdown_forestalled plainOptions ⟨[], []⟩ false forestalled havoids 5 (by simp [htasks, x]) hwaits
  refine ⟨htasks, hwaits, hready, hrun.resolve_left ?_⟩
  rw [hready]
  simp [SessionState.IsOver]

end Liaison
