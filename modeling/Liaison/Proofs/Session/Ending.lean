import Liaison.Proofs.Session.Invariance
import Liaison.Proofs.Session.Ledger

/-!
# The end of a session

A session ends in many ways: by a shutdown, a failed handshake, the end of its stream, a fault of reading or
writing, the end of its process. Whichever it is, the registry is closed before the session is over, so that no
call waits any longer and none can be registered. A caller that waited finds its reply.
-/

namespace Liaison

/-! ## The registry and its callers -/

namespace Registry

variable {r r' r'' : Registry} {id : Nat}

/-- A caller need not wait in vain: the call may be settled yet, or its reply is there. -/
def Serves (r : Registry) (id : Nat) : Prop :=
  id ∈ r.pending ∨ (r.settled.get? id).isSome = true

def IsShut (r : Registry) : Prop :=
  r.closed.isSome = true

/-- What was done to a registry without the callers of the given calls. It may have been closed, not opened, and
all other callers are served as before. -/
structure Carries (mine : Nat → Prop) (r r' : Registry) : Prop where
  shut : r.IsShut → r'.IsShut
  emptied : (r.IsShut → r.pending = []) → r'.IsShut → r'.pending = []
  serves : ∀ id, ¬ mine id → r.Serves id → r'.Serves id

theorem Carries.refl (mine : Nat → Prop) (r : Registry) : Carries mine r r :=
  ⟨id, fun h => h, fun _ _ h => h⟩

theorem Carries.trans {mine : Nat → Prop} (h : Carries mine r r') (h' : Carries mine r' r'') : Carries mine r r'' where
  shut hs := h'.shut (h.shut hs)
  emptied he := h'.emptied (h.emptied he)
  serves id hid hs := h'.serves id hid (h.serves id hid hs)

theorem Carries.mono {mine mine' : Nat → Prop} (h : Carries mine r r') (hm : ∀ id, mine id → mine' id) :
    Carries mine' r r' :=
  ⟨h.shut, h.emptied, fun id hid => h.serves id fun hi => hid (hm id hi)⟩

theorem Carries.of_pending {mine : Nat → Prop} (hc : r'.closed = r.closed) (hp : r'.pending.Sublist r.pending)
    (hs : ∀ id, ¬ mine id → r.Serves id → r'.Serves id) : Carries mine r r' := by
  refine ⟨?_, ?_, hs⟩
  · intro h
    rwa [IsShut, hc]
  · intro he h
    rw [IsShut, hc] at h
    exact List.sublist_nil.mp (he h ▸ hp)

theorem carries_settle (r : Registry) (id : Nat) (reply : Reply) : Carries (fun _ => False) r (r.settle id reply) := by
  refine .of_pending rfl List.filter_sublist ?_
  rintro i - hi
  rw [Serves, get?_settle]
  by_cases e : i = id
  · exact .inr (by rw [if_pos e]; rfl)
  · rw [if_neg e]
    exact hi.imp_left fun hp => List.mem_filter.mpr ⟨hp, decide_eq_true e⟩

theorem carries_fulfill (r : Registry) (id : Nat) (reply : Reply) :
    Carries (fun _ => False) r (r.fulfill id reply).1 := by
  rcases r.fulfill_cases id reply with ⟨-, e⟩ | ⟨-, e₁, e₂, e₃⟩
  · rw [e]
    exact carries_settle r id reply
  · refine .of_pending e₂ (e₁ ▸ .refl _) ?_
    rintro i - hi
    rwa [Serves, e₁, e₃]

theorem carries_cancel (r : Registry) (id : Nat) (reason : String) :
    Carries (fun _ => False) r (r.cancel id reason).1 := by
  unfold Registry.cancel
  split
  · exact carries_settle r id _
  · exact .refl _ r

theorem carries_register {r' : Registry} (h : r.register id = .ok r') : Carries (· = id) r r' ∧ r'.Serves id := by
  unfold Registry.register at h
  split at h
  · cases h
  · rename_i hopen
    cases h
    refine ⟨⟨?_, ?_, ?_⟩, .inl (List.mem_cons_self)⟩
    · intro hs
      rw [IsShut, hopen] at hs
      cases hs
    · intro _ hs
      rw [IsShut, hopen] at hs
      cases hs
    · intro i hi hs
      rw [Serves, Table.get?_erase, if_neg hi]
      exact hs.imp_left fun hp => List.mem_cons_of_mem _ (List.mem_filter.mpr ⟨hp, decide_eq_true hi⟩)

theorem carries_abandon (r : Registry) (id : Nat) : Carries (· = id) r (r.abandon id) := by
  refine ((carries_cancel r id abandonReason).mono fun _ => False.elim).trans ?_
  refine .of_pending rfl (.refl _) ?_
  intro i hi hs
  rw [abandon, Serves, Table.get?_erase, if_neg hi]
  exact hs

theorem carries_expire (r : Registry) (id : Nat) :
    Carries (fun i => i = id ∧ (r.expire id).2 = true) r (r.expire id).1 := by
  unfold Registry.expire
  split
  · refine .of_pending rfl List.filter_sublist ?_
    intro i hi hs
    have hne : i ≠ id := fun e => hi ⟨e, rfl⟩
    exact hs.imp_left fun hp => List.mem_filter.mpr ⟨hp, decide_eq_true hne⟩
  · exact .refl _ r

theorem carries_collect {reply : Reply} {r' : Registry} (h : r.collect? id = some (reply, r')) :
    Carries (· = id) r r' := by
  obtain ⟨_, _, he⟩ := Option.map_eq_some_iff.mp h
  cases he
  refine .of_pending rfl (.refl _) ?_
  intro i hi hs
  rwa [Serves, Table.get?_erase, if_neg hi]

theorem carries_closeAll (r : Registry) (reason : String) :
    Carries (fun _ => False) r (r.closeAll reason) ∧ (r.closeAll reason).IsShut := by
  refine ⟨⟨fun _ => rfl, fun _ _ => rfl, ?_⟩, rfl⟩
  rintro i - hi
  refine .inr ?_
  rw [get?_closeAll]
  split
  · rfl
  · rename_i hn
    exact hi.resolve_left hn

theorem carries_foldl_abandon (calls : List (Nat × TaskId)) (r : Registry) :
    Carries (fun id => ∃ p ∈ calls, p.1 = id) r (calls.foldl (fun r p => r.abandon p.1) r) := by
  induction calls generalizing r with
  | nil => exact .refl _ r
  | cons p calls ih =>
    rw [List.foldl_cons]
    refine Carries.trans ((carries_abandon r p.1).mono ?_) ((ih _).mono ?_)
    · rintro _ rfl
      exact ⟨p, List.mem_cons_self, rfl⟩
    · rintro _ ⟨q, hq, rfl⟩
      exact ⟨q, List.mem_cons_of_mem _ hq, rfl⟩

end Registry

section

variable {m m' : Machine} {k : Conduct} {t : TaskId} {a : Action} {answer : a.Answer} {id : Nat}

/-- An action serves all callers as before, unless it takes a call in or lets go of one. -/
theorem carries_perform (hp : m.perform t a = some (answer, m')) :
    Registry.Carries (fun id => Deed.releases id ⟨t, a, answer⟩ = true ∨ a = .register id) m.registry m'.registry := by
  cases a with
  | register id =>
    simp only [Machine.perform, Machine.register] at hp
    split at hp
    · rename_i r hr
      cases hp
      refine (Registry.carries_register hr).1.mono ?_
      rintro _ rfl
      exact .inr rfl
    · cases hp
      exact .refl _ _
  | awaitReply id limit =>
    simp only [Machine.perform, Machine.awaitReply] at hp
    split at hp
    · rename_i reply r hc
      cases hp
      refine (Registry.carries_collect hc).mono ?_
      rintro _ rfl
      exact .inl (decide_eq_true rfl)
    · split at hp <;> cases hp
      exact .refl _ _
  | collect id =>
    simp only [Machine.perform, Machine.collect] at hp
    split at hp
    · rename_i reply r hc
      cases hp
      refine (Registry.carries_collect hc).mono ?_
      rintro _ rfl
      exact .inl (decide_eq_true rfl)
    · cases hp
      exact .refl _ _
  | expire id =>
    simp only [Machine.perform, Option.some.injEq, Prod.mk.injEq] at hp
    obtain ⟨rfl, rfl⟩ := hp
    refine (Registry.carries_expire _ id).mono ?_
    rintro _ ⟨rfl, he⟩
    rw [he]
    exact .inl (decide_eq_true rfl)
  | abandon id =>
    cases hp
    refine (Registry.carries_abandon _ id).mono ?_
    rintro _ rfl
    exact .inl (decide_eq_true rfl)
  | fulfill id reply =>
    cases hp
    exact (Registry.carries_fulfill _ id reply).mono fun _ => False.elim
  | cancel id reason =>
    cases hp
    exact (Registry.carries_cancel _ id reason).mono fun _ => False.elim
  | closeCalls reason =>
    cases hp
    exact (Registry.carries_closeAll _ reason).1.mono fun _ => False.elim
  | _ =>
    rw [(spares_perform hp).registry (by simp [Action.reach])]
    exact .refl _ _

theorem nextId_perform (hp : m.perform t a = some (answer, m')) : m.nextId ≤ m'.nextId := by
  cases a with
  | nextId =>
    cases hp
    exact Nat.le_succ _
  | _ => exact Nat.le_of_eq ((spares_perform hp).nextId (by simp [Action.reach])).symm

theorem hold_of_releases (ha : k.Allows a) (hr : Deed.releases id ⟨t, a, answer⟩ = true) : k.hold = .call id := by
  cases a with
  | abandon i => exact of_decide_eq_true hr ▸ ha
  | expire i =>
    cases answer with
    | true => exact of_decide_eq_true hr ▸ ha
    | false => cases hr
  | awaitReply i limit =>
    cases answer with
    | some reply => exact of_decide_eq_true hr ▸ ha
    | none => cases hr
  | collect i =>
    cases answer with
    | some reply => exact of_decide_eq_true hr ▸ ha
    | none => cases hr
  | _ => cases hr

/-- What a task has in hand after an action it had before, or it is a new number. -/
theorem id?_hold_after (ha : k.Allows a) (hp : m.perform t a = some (answer, m'))
    (h : (k.after a answer).hold.id? = some id) :
      k.hold.id? = some id ∨ (id = m.nextId ∧ m'.nextId = m.nextId + 1) := by
  cases a with
  | nextId =>
    cases hp
    cases h
    exact .inr ⟨rfl, rfl⟩
  | register i =>
    cases answer with
    | ok _ =>
      cases h
      exact .inl (congrArg Hold.id? ha)
    | error e => cases h
  | awaitReply i limit =>
    cases answer with
    | some reply => cases h
    | none => exact .inl h
  | expire i =>
    cases answer with
    | true => cases h
    | false => exact .inl h
  | collect i => cases h
  | abandon i => cases h
  | _ => exact .inl h

/-- A call that a task has in hand after an action it had before and did not let go, or it was taken in. -/
theorem hold_after (hp : m.perform t a = some (answer, m')) (h : (k.after a answer).hold = .call id) :
    (k.hold = .call id ∧ Deed.releases id ⟨t, a, answer⟩ = false) ∨ (a = .register id ∧ m'.registry.Serves id) := by
  cases a with
  | nextId => cases h
  | register i =>
    simp only [Machine.perform, Machine.register] at hp
    split at hp
    · rename_i r hr
      cases hp
      cases h
      exact .inr ⟨rfl, (Registry.carries_register hr).2⟩
    · cases hp
      cases h
  | awaitReply i limit =>
    cases answer with
    | some reply => cases h
    | none => exact .inl ⟨h, rfl⟩
  | expire i =>
    cases answer with
    | true => cases h
    | false => exact .inl ⟨h, rfl⟩
  | collect i => cases h
  | abandon i => cases h
  | _ => exact .inl ⟨h, rfl⟩

end

/-! ## The session and its tasks -/

structure Machine.Sealed (m : Machine) (k : Conducts) : Prop where
  ended : m.state = .terminated → m.registry.IsShut
  emptied : m.registry.IsShut → m.registry.pending = []
  closing : ∀ t, (k t).isClosing = true → m.registry.IsShut
  numbers : ∀ t id, (k t).hold.id? = some id → id < m.nextId
  single : ∀ t u id, (k t).hold.id? = some id → (k u).hold.id? = some id → t = u
  served : ∀ t id, (k t).hold = .call id → m.registry.Serves id
  callers : ∀ p ∈ m.callers, p.1 < m.nextId ∧ ∀ t, (k t).hold.id? = some p.1 → t = p.2

namespace Machine.Sealed

variable {m m' : Machine} {k : Conducts} {t : TaskId} {a : Action} {answer : a.Answer}

theorem state_perform (hs : m.Sealed k) (ha : (k t).Allows a) (hp : m.perform t a = some (answer, m'))
    (he : m'.state = .terminated) : m.registry.IsShut := by
  cases a with
  | transition before after =>
    simp only [Machine.perform, SessionState.transition, Option.some.injEq, Prod.mk.injEq] at hp
    obtain ⟨-, rfl⟩ := hp
    simp only at he
    split at he
    · exact absurd he ha
    · exact hs.ended he
  | terminate => exact hs.closing t ha
  | _ =>
    rw [(spares_perform hp).state (by simp [Action.reach])] at he
    exact hs.ended he

theorem isClosing_perform (hs : m.Sealed k) (hp : m.perform t a = some (answer, m'))
    (hc : ((k t).after a answer).isClosing = true) : m'.registry.IsShut := by
  have hcarry := carries_perform hp
  cases a with
  | closeCalls reason =>
    cases hp
    exact rfl
  | terminate => cases hc
  | _ => exact hcarry.shut (hs.closing t hc)

theorem mem_callers_perform (hp : m.perform t a = some (answer, m')) {p : Nat × TaskId} (hm : p ∈ m'.callers) :
    p ∈ m.callers ∨ (a = .register p.1 ∧ p.2 = t) := by
  cases a with
  | register id =>
    simp only [Machine.perform, Machine.register] at hp
    split at hp
    · cases hp
      rcases Table.mem_insert hm with rfl | hm
      · exact .inr ⟨rfl, rfl⟩
      · exact .inl hm
    · cases hp
      exact .inl hm
  | _ =>
    rw [(spares_perform hp).callers (by simp [Action.reach])] at hm
    exact .inl hm

theorem perform (hs : m.Sealed k) (ha : (k t).Allows a) (hp : m.perform t a = some (answer, m')) :
    m'.Sealed (Function.update k t ((k t).after a answer)) := by
  have hcarry := carries_perform hp
  have hnext := nextId_perform hp
  -- whatever another task has in hand, it had before
  have hnumber : ∀ u id, (Function.update k t ((k t).after a answer) u).hold.id? = some id →
      (k u).hold.id? = some id ∨ (u = t ∧ id = m.nextId ∧ m'.nextId = m.nextId + 1) := by
    intro u id hu
    by_cases e : u = t
    · subst e
      rw [Function.update_self] at hu
      exact (id?_hold_after ha hp hu).imp_right fun h => ⟨rfl, h⟩
    · rw [Function.update_of_ne e] at hu
      exact .inl hu
  refine ⟨?_, ?_, ?_, ?_, ?_, ?_, ?_⟩
  · exact fun he => hcarry.shut (hs.state_perform ha hp he)
  · exact hcarry.emptied hs.emptied
  · intro u hu
    by_cases e : u = t
    · rw [e, Function.update_self] at hu
      exact hs.isClosing_perform hp hu
    · rw [Function.update_of_ne e] at hu
      exact hcarry.shut (hs.closing u hu)
  · intro u id hu
    rcases hnumber u id hu with h | ⟨-, rfl, h⟩
    · exact Nat.lt_of_lt_of_le (hs.numbers u id h) hnext
    · omega
  · intro u v id hu hv
    rcases hnumber u id hu with h | ⟨rfl, rfl, -⟩
    · rcases hnumber v id hv with h' | ⟨rfl, rfl, -⟩
      · exact hs.single u v id h h'
      · exact absurd (hs.numbers u _ h) (Nat.lt_irrefl _)
    · rcases hnumber v _ hv with h' | ⟨rfl, -, -⟩
      · exact absurd (hs.numbers v _ h') (Nat.lt_irrefl _)
      · rfl
  · intro u id hu
    by_cases e : u = t
    · subst e
      rw [Function.update_self] at hu
      rcases hold_after hp hu with ⟨hold, hrel⟩ | ⟨-, h⟩
      · refine hcarry.serves id ?_ (hs.served u id hold)
        rintro (h | rfl)
        · rw [hrel] at h
          cases h
        · rw [show (k u).hold = .number id from ha] at hold
          cases hold
      · exact h
    · rw [Function.update_of_ne e] at hu
      refine hcarry.serves id ?_ (hs.served u id hu)
      -- a call that another task has in hand is not touched
      have hid := congrArg Hold.id? hu
      rintro (h | rfl)
      · exact e (hs.single u t id hid (congrArg Hold.id? (hold_of_releases ha h)))
      · exact e (hs.single u t id hid (congrArg Hold.id? ha))
  · intro p hm
    rcases mem_callers_perform hp hm with hm | ⟨rfl, ht⟩
    · obtain ⟨hlt, hown⟩ := hs.callers p hm
      refine ⟨Nat.lt_of_lt_of_le hlt hnext, ?_⟩
      intro u hu
      rcases hnumber u p.1 hu with h | ⟨-, h, -⟩
      · exact hown u h
      · omega
    · have hhold : (k t).hold.id? = some p.1 := congrArg Hold.id? ha
      refine ⟨Nat.lt_of_lt_of_le (hs.numbers t _ hhold) hnext, ?_⟩
      intro u hu
      rw [ht]
      rcases hnumber u p.1 hu with h | ⟨h, -⟩
      · exact hs.single u t _ h hhold
      · exact h

theorem alike (hs : m.Sealed k) (h : m.Alike m') : m'.Sealed k := by
  obtain ⟨h₁, h₂, h₃, h₄, -, -, -⟩ := h
  refine ⟨?_, ?_, ?_, ?_, hs.single, ?_, ?_⟩
  · rw [h₁, h₂]
    exact hs.ended
  · rw [h₂]
    exact hs.emptied
  · rw [h₂]
    exact hs.closing
  · rw [h₃]
    exact hs.numbers
  · rw [h₂]
    exact hs.served
  · rw [h₃, h₄]
    exact hs.callers

/-- A task that is left with nothing in hand may let go of its calls. -/
theorem release (hs : m.Sealed k) (post : Option Nat) (hstate : m'.state = m.state) (hn : m'.nextId = m.nextId)
    (hc : m'.callers = m.callers)
    (hcarry : Registry.Carries (fun id => ∃ p ∈ m.callers, p.1 = id ∧ p.2 = t) m.registry m'.registry) :
    m'.Sealed (Function.update k t (.free post)) := by
  have hhold : ∀ u id, (Function.update k t (.free post) u).hold.id? = some id → u ≠ t ∧ (k u).hold.id? = some id := by
    intro u id hu
    by_cases e : u = t
    · rw [e, Function.update_self] at hu
      cases hu
    · rw [Function.update_of_ne e] at hu
      exact ⟨e, hu⟩
  refine ⟨?_, hcarry.emptied hs.emptied, ?_, ?_, ?_, ?_, ?_⟩
  · rw [hstate]
    exact fun he => hcarry.shut (hs.ended he)
  · intro u hu
    by_cases e : u = t
    · rw [e, Function.update_self] at hu
      cases hu
    · rw [Function.update_of_ne e] at hu
      exact hcarry.shut (hs.closing u hu)
  · intro u id hu
    rw [hn]
    exact hs.numbers u id (hhold u id hu).2
  · intro u v id hu hv
    exact hs.single u v id (hhold u id hu).2 (hhold v id hv).2
  · intro u id hu
    have hid := congrArg Hold.id? hu
    obtain ⟨e, h⟩ := hhold u id hid
    rw [Function.update_of_ne e] at hu
    refine hcarry.serves id ?_ (hs.served u id hu)
    rintro ⟨p, hp, rfl, ht⟩
    exact e (((hs.callers p hp).2 u h).trans ht)
  · intro p hp
    rw [hc] at hp
    rw [hn]
    exact ⟨(hs.callers p hp).1, fun u hu => (hs.callers p hp).2 u (hhold u _ hu).2⟩

theorem lose (hs : m.Sealed k) (h : m.Lost t m') : m'.Sealed (Function.update k t (.free none)) := by
  refine hs.release none h.state h.nextId h.callers ?_
  rw [h.registry]
  refine (Registry.carries_foldl_abandon _ _).mono ?_
  rintro _ ⟨p, hp, rfl⟩
  obtain ⟨hp, ht⟩ := List.mem_filter.mp hp
  exact ⟨p, hp, rfl, of_decide_eq_true ht⟩

end Machine.Sealed

theorem invariant_sealed : Course.Invariant fun x k => x.machine.Sealed k where
  alike _ _ _ hs hm := hs.alike hm
  act _ _ _ _ _ _ hs ha hp := hs.perform ha hp
  turn _ _ _ _ post hs _ _ := hs.release post rfl rfl rfl (.refl _ _)
  lose _ _ _ _ hs hm := hs.lose hm

theorem sealed_blank (o : ClientOptions) (files : FileTree) : (Machine.blank o files .starting).Sealed .first := by
  have hfree : ∀ t, (Conducts.first t).isClosing = false ∧ (Conducts.first t).hold = .nothing := by
    intro t
    rw [Conducts.first_eq_free]
    exact ⟨rfl, rfl⟩
  refine ⟨?_, fun _ => rfl, ?_, ?_, ?_, ?_, ?_⟩
  · intro he
    cases he
  · intro t ht
    rw [(hfree t).1] at ht
    cases ht
  · intro t id ht
    rw [(hfree t).2] at ht
    cases ht
  · intro t u id ht
    rw [(hfree t).2] at ht
    cases ht
  · intro t id ht
    rw [(hfree t).2] at ht
    cases ht
  · intro p hp
    cases hp

/-! ## The end -/

theorem terminated_perform {m m' : Machine} {t : TaskId} {a : Action} {answer : a.Answer}
    (hp : m.perform t a = some (answer, m')) (h : m.state = .terminated) : m'.state = .terminated := by
  cases a with
  | transition before after =>
    simp only [Machine.perform, SessionState.transition, Option.some.injEq, Prod.mk.injEq] at hp
    obtain ⟨-, rfl⟩ := hp
    simp [h]
  | terminate =>
    cases hp
    rfl
  | _ => exact ((spares_perform hp).state (by simp [Action.reach])).trans h

theorem invariant_terminated : Course.Invariant fun x _ => x.machine.state = .terminated where
  alike _ _ _ h hm := hm.state.trans h
  act _ _ _ _ _ _ h _ hp := terminated_perform hp h
  turn _ _ _ _ _ h _ _ := h
  lose _ _ _ _ h hm := hm.state.trans h

/-- The session has ended. No call is pending, none can be registered, and whoever waits for one has its reply. -/
structure Machine.IsOver (m : Machine) : Prop where
  ended : m.state = .terminated
  closed : m.registry.closed.isSome = true
  pending : m.registry.pending = []
  refused : ∀ t id, ∃ reason, (m.register t id).1 = .error (.sessionClosed reason)
  answered : ∀ t id limit next, m.tasks.get? t = some (.step (.awaitReply id limit) next) →
    ∃ reply, (m.registry.collect? id).map Prod.fst = some reply

theorem Machine.Sealed.isOver {m : Machine} {k : Conducts} (hs : m.Sealed k) (hd : m.Disciplined k)
    (he : m.state = .terminated) : m.IsOver := by
  have hshut := hs.ended he
  have hempty := hs.emptied hshut
  refine ⟨he, hshut, hempty, ?_, ?_⟩
  · intro t id
    obtain ⟨reason, hc⟩ := Option.isSome_iff_exists.mp hshut
    refine ⟨reason, ?_⟩
    rw [Machine.register, Registry.register, hc]
  · intro t id limit next ht
    have hhold : (k t).hold = .call id := (hd.obeys t _ ht).1
    rw [Registry.collect?_map]
    apply Option.isSome_iff_exists.mp
    refine (hs.served t id hhold).resolve_left ?_
    rw [hempty]
    exact List.not_mem_nil

/-- Whatever happens to a session, and in whatever way it ends: once it has ended it is over for good. -/
theorem isOver_after_terminated (o : ClientOptions) (files : FileTree) (hasProcess : Bool)
    (occurrences later : List Occurrence)
    (h : ((Course.begin o files hasProcess).run occurrences).machine.state = .terminated) :
    ((Course.begin o files hasProcess).run (occurrences ++ later)).machine.IsOver := by
  obtain ⟨k, hd, hs⟩ := invariant_sealed.run_begin (sealed_blank o files) hasProcess occurrences
  obtain ⟨k', hd', hs', he⟩ := (invariant_sealed.and invariant_terminated).run hd ⟨hs, h⟩ later
  rw [Course.run_append]
  exact hs'.isOver hd' he

/-- A call is registered, and the server hangs up before it answers. -/
def hangingUp : List Occurrence :=
  [.start (.call "first" none none)] ++ List.replicate 4 (.step 3) ++ [.hangUp] ++ List.replicate 3 (.step 1)

/-- The call is written after all, and another one is tried. -/
def afterHangingUp : List Occurrence :=
  List.replicate 3 (.step 0) ++ [.step 3, .start (.call "second" none none)] ++ List.replicate 3 (.step 4)

theorem isOver_after_terminated_hangingUp :
    let x := Course.begin ⟨"rust", "rust", [], none, 1, 1, .null⟩ ⟨[], []⟩ false
    (x.run hangingUp).machine.state = .terminated ∧ (x.run (hangingUp ++ afterHangingUp)).machine.IsOver :=
  ⟨by decide +kernel, isOver_after_terminated _ _ false hangingUp afterHangingUp (by decide +kernel)⟩

end Liaison
