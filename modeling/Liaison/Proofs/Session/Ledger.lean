import Liaison.Proofs.Session.Course
import Liaison.Proofs.Session.Knowledge
import Liaison.Proofs.Session.Reach

/-!
# The registry and its history

Tasks register calls, answer them, cancel them, give them up, wait for them, let them run out of time and
close the registry, in any order. What the registry answers to any of it follows from the history alone.
-/

namespace Liaison

/-! ## What a history demands -/

/-- The call was settled by the end of its time, and since then neither a response came for it nor was the
registry closed. -/
def LateDue (id : Nat) : History → Prop :=
  Since (fun before d => standing id before = .waiting ∧ d.action = .expire id)
    fun e => e.action.closes? = none ∧ ∀ reply, e.action ≠ .fulfill id reply

/-- Does the caller let go of its call: does it give up, run out of time or get the reply? -/
def Deed.releases (id : Nat) : Deed → Bool
  | ⟨_, .abandon i, _⟩ => i = id
  | ⟨_, .expire i, true⟩ => i = id
  | ⟨_, .awaitReply i _, some _⟩ => i = id
  | ⟨_, .collect i, some _⟩ => i = id
  | _ => false

/-- The call was taken in, and its caller has not let go of it. -/
def IsHeld (id : Nat) (h : History) : Prop :=
  standing id h ≠ .unknown ∧ ∀ d ∈ h, d.releases id = false

def Standing.isWaiting : Standing → Bool
  | waiting => true
  | _ => false

theorem Standing.isWaiting_iff (s : Standing) : s.isWaiting = true ↔ s = .waiting := by
  cases s <;> simp [isWaiting]

def Deed.registered? : Deed → Option Nat
  | ⟨_, .register id, .ok ()⟩ => some id
  | _ => none

def registered (h : History) : List Nat :=
  h.filterMap Deed.registered?

section

variable {h : History} {d : Deed} {id : Nat}

theorem standing_append_of_settled {s : Settlement} (hs : standing id h = .settled s) (after : History) :
    standing id (h ++ after) = .settled s := by
  induction after using List.reverseRecOn with
  | nil => rwa [List.append_nil]
  | append_singleton after d ih =>
    rw [← List.append_assoc]
    exact standing_concat_of_settled ih d

theorem LateDue.standing (hl : LateDue id h) : standing id h = .settled .timedOut := by
  obtain ⟨before, d, after, rfl, ⟨hw, hd⟩, -⟩ := hl
  rw [← List.concat_append]
  apply standing_append_of_settled
  rw [List.concat_eq_append]
  apply standing_concat_of_waiting hw
  rw [hd]
  exact if_pos rfl

theorem lateDue_concat : LateDue id (h ++ [d]) ↔
    (Liaison.standing id h = .waiting ∧ d.action = .expire id) ∨
      (LateDue id h ∧ d.action.closes? = none ∧ ∀ reply, d.action ≠ .fulfill id reply) :=
  since_concat

theorem IsHeld.of_concat (hh : IsHeld id (h ++ [d])) :
    d.releases id = false ∧ (d.registers id = true ∨ IsHeld id h) := by
  obtain ⟨hs, hd⟩ := hh
  refine ⟨hd d (by simp), ?_⟩
  by_cases hr : d.registers id = true
  · exact .inl hr
  · refine .inr ⟨?_, fun e he => hd e (List.mem_append_left _ he)⟩
    intro hu
    rw [standing_concat, hu, Standing.after, if_neg hr] at hs
    exact hs rfl

theorem registered_concat (h : History) (d : Deed) : registered (h ++ [d]) = registered h ++ d.registered?.toList := by
  rw [registered, List.filterMap_append]
  cases hd : d.registered? <;> simp [registered, hd]

theorem registered?_eq_some_iff : d.registered? = some id ↔ d.registers id = true := by
  obtain ⟨t, action, answer⟩ := d
  cases action with
  | register i =>
    cases answer with
    | ok _ => simp [Deed.registered?, Deed.registers]
    | error e => simp [Deed.registered?, Deed.registers]
  | _ => simp [Deed.registered?, Deed.registers]

theorem mem_registered_iff : id ∈ registered h ↔ standing id h ≠ .unknown := by
  induction h using List.reverseRecOn with
  | nil => simp [registered, standing]
  | append_singleton h d ih =>
    rw [registered_concat, List.mem_append, Option.mem_toList, registered?_eq_some_iff, ih]
    constructor
    · rintro (hs | hr)
      · exact standing_concat_ne_unknown hs d
      · rw [standing_concat]
        cases standing id h with
        | unknown => simp [Standing.after, hr]
        | waiting => simp only [Standing.after]; split <;> simp
        | settled s => simp [Standing.after]
    · intro hs
      by_cases hr : d.registers id = true
      · exact .inr hr
      · refine .inl fun hu => hs ?_
        rw [standing_concat, hu, Standing.after, if_neg hr]

end

/-! ## What the registry keeps of it -/

structure Registry.Keeps (r : Registry) (h : History) : Prop where
  tracks : r.Tracks h
  nodup : r.pending.Nodup
  expired : ∀ id, id ∈ r.expired ↔ LateDue id h
  emptied : r.closed.isSome = true → r.pending = []
  held : ∀ id, IsHeld id h → r.Holds h id
  failed : ∀ id reason, standing id h = .settled (.closed reason) → closing? h = some reason

namespace Registry

variable {r r' : Registry} {h : History} {d : Deed} {id : Nat} {t : TaskId}

theorem keeps_empty : Registry.empty.Keeps [] := by
  refine ⟨tracks_empty, List.nodup_nil, ?_, fun _ => rfl, ?_, ?_⟩
  · intro id
    exact iff_of_false List.not_mem_nil not_since_nil
  · intro id hid
    exact absurd rfl hid.1
  · intro id reason hs
    cases hs

theorem Keeps.not_mem_pending (hk : r.Keeps h) (hl : LateDue id h) : id ∉ r.pending := by
  intro hm
  have hs := hl.standing
  rw [(hk.tracks.pending id).mp hm] at hs
  cases hs

/-- Only the closing of the registry settles a call with a reason for closing, and it is the first one. -/
theorem Keeps.failed_concat (hk : r.Keeps h) (reason : String)
    (hs : standing id (h ++ [d]) = .settled (.closed reason)) :
    closing? (h ++ [d]) = some reason := by
  rw [standing_concat] at hs
  cases hst : standing id h with
  | unknown =>
    rw [hst, Standing.after] at hs
    split at hs <;> cases hs
  | settled s =>
    rw [hst] at hs
    cases hs
    exact closing?_concat_of_some (hk.failed id reason hst) d
  | waiting =>
    rw [hst, Standing.after] at hs
    have hopen : closing? h = none := by
      by_contra hc
      have hsome : r.closed.isSome = true := by
        rw [hk.tracks.closed]
        exact Option.isSome_iff_ne_none.mpr hc
      have hm := (hk.tracks.pending id).mpr hst
      rw [hk.emptied hsome] at hm
      cases hm
    have hd : d.action.settles? id = some (.closed reason) := by
      cases ha : d.action.settles? id with
      | none =>
        rw [ha] at hs
        cases hs
      | some s =>
        rw [ha] at hs
        cases hs
        rfl
    rw [closing?_concat, hopen, Option.none_or]
    obtain ⟨t, action, answer⟩ := d
    cases action with
    | closeCalls reason' =>
      cases hd
      rfl
    | fulfill i reply | expire i | cancel i reason' | abandon i =>
      unfold Action.settles? at hd
      simp at hd
    | _ => cases hd

theorem Keeps.concat (hk : r.Keeps h) (ht : r'.Tracks (h ++ [d])) (hp : r'.pending.Sublist r.pending)
    (hc : r'.closed = r.closed) (hr : ∀ id, d.registers id = false)
    (he : ∀ id, id ∈ r'.expired ↔ LateDue id (h ++ [d]))
    (hh : ∀ id, IsHeld id h → d.releases id = false → r'.Holds (h ++ [d]) id) : r'.Keeps (h ++ [d]) := by
  refine ⟨ht, hk.nodup.sublist hp, he, ?_, ?_, fun id => hk.failed_concat⟩
  · intro hsome
    rw [hc] at hsome
    exact List.sublist_nil.mp (hk.emptied hsome ▸ hp)
  · intro id hid
    obtain ⟨hrel, hreg | hid⟩ := hid.of_concat
    · rw [hr] at hreg
      cases hreg
    · exact hh id hid hrel

theorem lateDue_concat_of_neutral (hd : d.IsNeutral) : LateDue id (h ++ [d]) ↔ LateDue id h := by
  have hexpire : d.action ≠ .expire id := by
    intro ha
    have := hd.settles id
    simp [ha, Action.settles?] at this
  have hfulfill : ∀ reply, d.action ≠ .fulfill id reply := by
    intro reply ha
    have := hd.settles id
    simp [ha, Action.settles?] at this
  simp [lateDue_concat, hexpire, hfulfill, hd.closes]

/-- Replies are collected, if anything, by those who let go of their calls then. -/
theorem Keeps.neutral (hk : r.Keeps h) (hd : d.IsNeutral) (hp : r'.pending = r.pending)
    (he : r'.expired = r.expired) (hc : r'.closed = r.closed)
    (hs : ∀ id, r'.settled.get? id = r.settled.get? id ∨ (r'.settled.get? id = none ∧ d.releases id = true)) :
    r'.Keeps (h ++ [d]) := by
  have ht : r'.Tracks (h ++ [d]) := by
    refine hk.tracks.neutral hd hp hc ?_
    intro id reply hr
    rcases hs id with e | ⟨e, -⟩
    · rwa [e] at hr
    · rw [e] at hr
      cases hr
  refine hk.concat ht (hp ▸ .refl _) hc hd.registers ?_ ?_
  · intro id
    rw [he, lateDue_concat_of_neutral hd]
    exact hk.expired id
  · intro id hid hrel
    refine (hk.held id hid).neutral hd ?_
    rcases hs id with e | ⟨-, e⟩
    · exact e
    · rw [hrel] at e
      cases e

theorem Keeps.register (hk : r.Keeps h) (hr : r.register id = .ok r') (hu : Liaison.standing id h = .unknown)
    (t : TaskId) : r'.Keeps (h ++ [⟨t, .register id, .ok ()⟩]) := by
  have ht := hk.tracks.register hr hu t
  have hlate : ∀ i, LateDue i (h ++ [⟨t, .register id, .ok ()⟩]) ↔ LateDue i h := by
    intro i
    simp [lateDue_concat, Action.closes?]
  have hheld : ∀ i, IsHeld i (h ++ [⟨t, .register id, .ok ()⟩]) →
      r'.Holds (h ++ [⟨t, .register id, .ok ()⟩]) i := by
    intro i hi
    refine Holds.register hr hu t ?_
    obtain ⟨-, hreg | hi⟩ := hi.of_concat
    · rw [registers_register] at hreg
      exact .inl (of_decide_eq_true hreg).symm
    · exact .inr (hk.held i hi)
  unfold Registry.register at hr
  split at hr
  · cases hr
  · rename_i hopen
    cases hr
    refine ⟨ht, ?_, ?_, ?_, hheld, fun id => hk.failed_concat⟩
    · exact List.nodup_cons.mpr ⟨by simp, hk.nodup.filter _⟩
    · intro i
      rw [hlate]
      exact hk.expired i
    · intro hsome
      simp [hopen] at hsome

theorem Keeps.fulfill (hk : r.Keeps h) (t : TaskId) (id : Nat) (reply : Reply) :
    (r.fulfill id reply).1.Keeps (h ++ [⟨t, .fulfill id reply, ()⟩]) := by
  have hlate : ∀ i, LateDue i (h ++ [⟨t, .fulfill id reply, ()⟩]) ↔ LateDue i h ∧ i ≠ id := by
    intro i
    simp [lateDue_concat, Action.closes?, eq_comm]
  have hsame : (r.fulfill id reply).1.pending.Sublist r.pending ∧ (r.fulfill id reply).1.closed = r.closed := by
    rcases r.fulfill_cases id reply with ⟨-, e⟩ | ⟨-, e₁, e₂, -⟩
    · rw [e]
      exact ⟨List.filter_sublist, rfl⟩
    · exact ⟨e₁ ▸ .refl _, e₂⟩
  refine hk.concat (hk.tracks.fulfill t id reply) hsame.1 hsame.2 (fun _ => rfl) ?_ ?_
  · intro i
    rw [hlate, ← hk.expired]
    unfold Registry.fulfill
    by_cases hp : id ∈ r.pending
    · have hne : i ∈ r.expired → i ≠ id := by
        rintro hi rfl
        exact hk.not_mem_pending ((hk.expired i).mp hi) hp
      rw [if_pos hp]
      exact ⟨fun hi => ⟨hi, hne hi⟩, fun hi => hi.1⟩
    · rw [if_neg hp]
      split
      · simp
      · rename_i hn
        have hne : i ∈ r.expired → i ≠ id := by
          rintro hi rfl
          exact hn hi
        exact ⟨fun hi => ⟨hi, hne hi⟩, fun hi => hi.1⟩
  · intro i hi _
    exact (hk.held i hi).fulfill hk.tracks t id reply

theorem Keeps.cancel (hk : r.Keeps h) (t : TaskId) (id : Nat) (reason : String) (answer : Bool) :
    (r.cancel id reason).1.Keeps (h ++ [⟨t, .cancel id reason, answer⟩]) := by
  have hsame : (r.cancel id reason).1.pending.Sublist r.pending ∧ (r.cancel id reason).1.closed = r.closed ∧
      (r.cancel id reason).1.expired = r.expired := by
    unfold Registry.cancel
    split
    · exact ⟨List.filter_sublist, rfl, rfl⟩
    · exact ⟨.refl _, rfl, rfl⟩
  refine hk.concat (hk.tracks.cancel t id reason answer) hsame.1 hsame.2.1 (fun _ => rfl) ?_ ?_
  · intro i
    rw [hsame.2.2, hk.expired]
    simp [lateDue_concat, Action.closes?]
  · intro i hi _
    exact (hk.held i hi).cancel hk.tracks t id reason answer

theorem Keeps.abandon (hk : r.Keeps h) (t : TaskId) (id : Nat) :
    (r.abandon id).Keeps (h ++ [⟨t, .abandon id, ()⟩]) := by
  have hsame : (r.abandon id).pending.Sublist r.pending ∧ (r.abandon id).closed = r.closed ∧
      (r.abandon id).expired = r.expired := by
    unfold Registry.abandon Registry.cancel
    split
    · exact ⟨List.filter_sublist, rfl, rfl⟩
    · exact ⟨.refl _, rfl, rfl⟩
  refine hk.concat (hk.tracks.abandon t id) hsame.1 hsame.2.1 (fun _ => rfl) ?_ ?_
  · intro i
    rw [hsame.2.2, hk.expired]
    simp [lateDue_concat, Action.closes?]
  · intro i hi hrel
    have hne : i ≠ id := by
      rintro rfl
      simp [Deed.releases] at hrel
    exact (hk.held i hi).abandon t hne

theorem Keeps.expire (hk : r.Keeps h) (t : TaskId) (id : Nat) :
    (r.expire id).1.Keeps (h ++ [⟨t, .expire id, (r.expire id).2⟩]) := by
  have hlate : ∀ i, LateDue i (h ++ [⟨t, .expire id, (r.expire id).2⟩]) ↔
      (id ∈ r.pending ∧ i = id) ∨ LateDue i h := by
    intro i
    rw [lateDue_concat, hk.tracks.pending]
    simp only [Action.closes?]
    constructor
    · rintro (⟨hw, ha⟩ | ⟨hl, -⟩)
      · cases ha
        exact .inl ⟨hw, rfl⟩
      · exact .inr hl
    · rintro (⟨hw, rfl⟩ | hl)
      · exact .inl ⟨hw, rfl⟩
      · exact .inr ⟨hl, trivial, by simp⟩
  have hsame : (r.expire id).1.pending.Sublist r.pending ∧ (r.expire id).1.closed = r.closed := by
    unfold Registry.expire
    split
    · exact ⟨List.filter_sublist, rfl⟩
    · exact ⟨.refl _, rfl⟩
  refine hk.concat (hk.tracks.expire t id _) hsame.1 hsame.2 (fun _ => rfl) ?_ ?_
  · intro i
    rw [hlate, ← hk.expired]
    unfold Registry.expire
    by_cases hp : id ∈ r.pending
    · rw [if_pos hp]
      by_cases e : i = id <;> simp [e, hp]
    · simp [hp]
  · intro i hi hrel
    by_cases e : i = id
    · subst e
      have hn : i ∉ r.pending := by
        intro hp
        simp [Deed.releases, Registry.expire, hp] at hrel
      rcases hk.held i hi with hw | ⟨s, reply, hs, hr, hg⟩
      · exact absurd ((hk.tracks.pending i).mpr hw) hn
      · refine .inr ⟨s, reply, standing_concat_of_settled hs _, hr, ?_⟩
        rwa [Registry.expire, if_neg hn]
    · exact (hk.held i hi).expire t e _

theorem Keeps.close (hk : r.Keeps h) (t : TaskId) (reason : String) :
    (r.closeAll reason).Keeps (h ++ [⟨t, .closeCalls reason, ()⟩]) := by
  refine ⟨hk.tracks.close t reason, List.nodup_nil, ?_, fun _ => rfl, ?_, fun id => hk.failed_concat⟩
  · intro i
    refine iff_of_false List.not_mem_nil ?_
    simp [lateDue_concat, Action.closes?]
  · intro i hi
    obtain ⟨-, hreg | hi⟩ := hi.of_concat
    · cases hreg
    · exact (hk.held i hi).close hk.tracks t reason

theorem Keeps.collect (hk : r.Keeps h) {reply : Reply} (hd : d.IsNeutral) (hrel : d.releases id = true)
    (hc : r.collect? id = some (reply, r')) : r'.Keeps (h ++ [d]) := by
  obtain ⟨_, _, he⟩ := Option.map_eq_some_iff.mp hc
  cases he
  refine hk.neutral hd rfl rfl rfl ?_
  intro i
  rw [Table.get?_erase]
  by_cases e : i = id
  · exact .inr ⟨if_pos e, e ▸ hrel⟩
  · exact .inl (if_neg e)

end Registry

/-! ## Any actions in any order -/

def Action.newcomer? : Action → Option Nat
  | register id => some id
  | _ => none

namespace Course

variable {x : Course} {t : TaskId} {a : Action}

def actAll (x : Course) (actions : List (TaskId × Action)) : Course :=
  actions.foldl (fun x p => x.act p.1 p.2) x

theorem act_of_some {answer : a.Answer} {m : Machine} (h : x.machine.perform t a = some (answer, m)) :
    x.act t a = ⟨m, x.history ++ [⟨t, a, answer⟩]⟩ := by
  unfold act
  rw [h]

theorem act_of_none (h : x.machine.perform t a = none) : x.act t a = x := by
  unfold act
  rw [h]

theorem keeps_act (hk : x.machine.registry.Keeps x.history)
    (hu : ∀ id, a.newcomer? = some id → standing id x.history = .unknown) :
    (x.act t a).machine.registry.Keeps (x.act t a).history := by
  cases hp : x.machine.perform t a with
  | none => rwa [act_of_none hp]
  | some p =>
    obtain ⟨answer, m⟩ := p
    rw [act_of_some hp]
    have hneutral : ∀ d : Deed, d.IsNeutral → m.registry = x.machine.registry →
        m.registry.Keeps (x.history ++ [d]) := by
      intro d hd e
      exact hk.neutral hd (by rw [e]) (by rw [e]) (by rw [e]) (fun _ => .inl (by rw [e]))
    cases a with
    | register id =>
      simp only [Machine.perform, Machine.register] at hp
      split at hp
      · rename_i r hr
        cases hp
        exact hk.register hr (hu id rfl) t
      · cases hp
        exact hneutral _ ⟨fun _ => rfl, fun _ => rfl, rfl⟩ rfl
    | awaitReply id limit =>
      simp only [Machine.perform, Machine.awaitReply] at hp
      split at hp
      · rename_i reply r hc
        cases hp
        exact hk.collect ⟨fun _ => rfl, fun _ => rfl, rfl⟩ (decide_eq_true rfl) hc
      · split at hp
        · cases hp
          exact hneutral _ ⟨fun _ => rfl, fun _ => rfl, rfl⟩ rfl
        · cases hp
    | collect id =>
      simp only [Machine.perform, Machine.collect] at hp
      split at hp
      · rename_i reply r hc
        cases hp
        exact hk.collect ⟨fun _ => rfl, fun _ => rfl, rfl⟩ (decide_eq_true rfl) hc
      · cases hp
        exact hneutral _ ⟨fun _ => rfl, fun _ => rfl, rfl⟩ rfl
    | expire id =>
      cases hp
      exact hk.expire t id
    | abandon id =>
      cases hp
      exact hk.abandon t id
    | fulfill id reply =>
      cases hp
      exact hk.fulfill t id reply
    | cancel id reason =>
      cases hp
      exact hk.cancel t id reason _
    | closeCalls reason =>
      cases hp
      exact hk.close t reason
    | _ =>
      refine hneutral _ ⟨fun _ => rfl, fun _ => rfl, rfl⟩ ?_
      exact (spares_perform hp).registry (by simp [Action.reach])

theorem actAll_concat (x : Course) (actions : List (TaskId × Action)) (p : TaskId × Action) :
    x.actAll (actions ++ [p]) = (x.actAll actions).act p.1 p.2 := by
  rw [actAll, List.foldl_append]
  rfl

theorem registered_act_sublist (x : Course) (t : TaskId) (a : Action) :
    (registered (x.act t a).history).Sublist (registered x.history ++ a.newcomer?.toList) := by
  cases hp : x.machine.perform t a with
  | none =>
    rw [act_of_none hp]
    exact List.sublist_append_left _ _
  | some p =>
    rw [act_of_some hp, registered_concat]
    apply List.Sublist.append_left
    cases hd : Deed.registered? ⟨t, a, p.1⟩ with
    | none => exact List.nil_sublist _
    | some id =>
      have ha := action_of_registers (registered?_eq_some_iff.mp hd)
      rw [show a = .register id from ha]
      exact .refl _

theorem keeps_actAll {m : Machine} (hm : m.registry = .empty) (actions : List (TaskId × Action))
    (hfresh : (actions.filterMap fun p => p.2.newcomer?).Nodup) :
    (((⟨m, []⟩ : Course).actAll actions).machine.registry.Keeps ((⟨m, []⟩ : Course).actAll actions).history) ∧
      (registered ((⟨m, []⟩ : Course).actAll actions).history).Sublist
        (actions.filterMap fun p => p.2.newcomer?) := by
  induction actions using List.reverseRecOn with
  | nil =>
    refine ⟨?_, .refl _⟩
    rw [show ((⟨m, []⟩ : Course).actAll []).machine.registry = .empty from hm]
    exact Registry.keeps_empty
  | append_singleton actions p ih =>
    obtain ⟨t, a⟩ := p
    have hlast : ([(t, a)].filterMap fun p => p.2.newcomer?) = a.newcomer?.toList := by
      cases ha : a.newcomer? <;> simp [ha]
    rw [List.filterMap_append, hlast] at hfresh ⊢
    obtain ⟨hk, hsub⟩ := ih hfresh.of_append_left
    rw [actAll_concat]
    refine ⟨keeps_act hk ?_, (registered_act_sublist _ t a).trans (hsub.append_right _)⟩
    intro id hid
    by_contra hs
    rw [hid] at hfresh
    exact List.disjoint_of_nodup_append hfresh (hsub.subset (mem_registered_iff.mpr hs)) (List.mem_singleton_self id)

end Course

/-! ## What the registry answers -/

structure Registry.Recounts (r : Registry) (h : History) : Prop where
  count : r.pending.length = (registered h).countP fun id => (standing id h).isWaiting
  delivered : ∀ id reply, (r.fulfill id reply).2 = .delivered ↔ standing id h = .waiting
  late : ∀ id reply, (r.fulfill id reply).2 = .late ↔ LateDue id h
  unknown : ∀ id reply, (r.fulfill id reply).2 = .unknown ↔ standing id h ≠ .waiting ∧ ¬ LateDue id h
  cancelled : ∀ id reason, (r.cancel id reason).2 = true ↔ standing id h = .waiting
  expired : ∀ id, (r.expire id).2 = true ↔ standing id h = .waiting
  held : ∀ id, IsHeld id h → (standing id h = .waiting ∧ r.collect? id = none) ∨
    ∃ s reply, standing id h = .settled s ∧ s.reply? = some reply ∧ (r.collect? id).map Prod.fst = some reply
  collected : ∀ id reply, (r.collect? id).map Prod.fst = some reply →
    ∃ s, standing id h = .settled s ∧ s.reply? = some reply
  refused : ∀ id e, r.register id = .error e ↔ ∃ reason, closing? h = some reason ∧ e = .sessionClosed reason
  failed : ∀ id reason, standing id h = .settled (.closed reason) → closing? h = some reason

namespace Registry

variable {r : Registry} {h : History}

theorem Keeps.count (hk : r.Keeps h) (hr : (registered h).Nodup) :
    r.pending.length = (registered h).countP fun id => (standing id h).isWaiting := by
  rw [List.countP_eq_length_filter]
  apply List.Perm.length_eq
  rw [List.perm_ext_iff_of_nodup hk.nodup (hr.filter _)]
  intro id
  rw [List.mem_filter, Standing.isWaiting_iff, hk.tracks.pending, mem_registered_iff]
  refine ⟨fun hw => ⟨?_, hw⟩, And.right⟩
  rw [hw]
  exact Standing.noConfusion

theorem collect?_map (r : Registry) (id : Nat) : (r.collect? id).map Prod.fst = r.settled.get? id := by
  unfold collect?
  cases r.settled.get? id <;> rfl

theorem fulfill_delivered (r : Registry) (id : Nat) (reply : Reply) :
    (r.fulfill id reply).2 = .delivered ↔ id ∈ r.pending := by
  unfold fulfill
  by_cases hp : id ∈ r.pending <;> by_cases he : id ∈ r.expired <;> simp [hp, he]

theorem Keeps.late (hk : r.Keeps h) (id : Nat) (reply : Reply) : (r.fulfill id reply).2 = .late ↔ LateDue id h := by
  rw [← hk.expired]
  unfold Registry.fulfill
  by_cases hp : id ∈ r.pending
  · have hn : id ∉ r.expired := fun he => hk.not_mem_pending ((hk.expired id).mp he) hp
    simp [hp, hn]
  · by_cases he : id ∈ r.expired <;> simp [hp, he]

theorem Keeps.recounts (hk : r.Keeps h) (hr : (registered h).Nodup) : r.Recounts h := by
  have hdelivered : ∀ id reply, (r.fulfill id reply).2 = .delivered ↔ standing id h = .waiting := by
    intro id reply
    rw [fulfill_delivered, hk.tracks.pending]
  refine ⟨hk.count hr, hdelivered, hk.late, ?_, ?_, ?_, ?_, ?_, ?_, hk.failed⟩
  · intro id reply
    rw [ne_eq, ← hdelivered id reply, ← hk.late id reply]
    cases (r.fulfill id reply).2 <;> simp
  · intro id reason
    rw [← hk.tracks.pending]
    unfold Registry.cancel
    split <;> simp [*]
  · intro id
    rw [← hk.tracks.pending]
    unfold Registry.expire
    split <;> simp [*]
  · intro id hid
    rcases hk.held id hid with hw | ⟨s, reply, hs, hr, hg⟩
    · refine .inl ⟨hw, ?_⟩
      rw [← Option.map_eq_none_iff, collect?_map, Option.eq_none_iff_forall_ne_some]
      intro reply hg
      obtain ⟨s, hs, -⟩ := hk.tracks.settled id reply hg
      rw [hw] at hs
      cases hs
    · exact .inr ⟨s, reply, hs, hr, by rw [collect?_map, hg]⟩
  · intro id reply hg
    rw [collect?_map] at hg
    exact hk.tracks.settled id reply hg
  · intro id e
    rw [← hk.tracks.closed]
    unfold Registry.register
    split
    · rename_i reason hc
      simp [hc, eq_comm]
    · rename_i hc
      simp [hc]

end Registry

/-- After any actions of any tasks, in any order, the registry answers as the history demands, provided that
no call is registered twice. -/
theorem recounts_actAll (m : Machine) (hm : m.registry = .empty) (actions : List (TaskId × Action))
    (hfresh : (actions.filterMap fun p => p.2.newcomer?).Nodup) :
    ((⟨m, []⟩ : Course).actAll actions).machine.registry.Recounts ((⟨m, []⟩ : Course).actAll actions).history := by
  obtain ⟨hk, hsub⟩ := Course.keeps_actAll hm actions hfresh
  exact hk.recounts (hfresh.sublist hsub)

/-- One call is answered, one runs out of time before its response, one is failed by the closing of the
registry, and one comes too late. -/
def fourEnds : List (TaskId × Action) :=
  [(2, .register 1), (3, .register 2), (4, .register 3), (1, .fulfill 1 (.ok .null)), (3, .expire 2),
    (1, .fulfill 2 (.ok .null)), (0, .closeCalls "over"), (5, .register 4)]

theorem recounts_actAll_fourEnds :
    let m := Machine.blank ⟨"rust", "rust", [], none, 1, 1, .null⟩ ⟨[], []⟩ .ready
    m.registry = .empty ∧ (fourEnds.filterMap fun p => p.2.newcomer?).Nodup ∧
      ((⟨m, []⟩ : Course).actAll fourEnds).machine.registry.Recounts ((⟨m, []⟩ : Course).actAll fourEnds).history :=
  ⟨rfl, by decide, recounts_actAll _ rfl fourEnds (by decide)⟩

end Liaison
