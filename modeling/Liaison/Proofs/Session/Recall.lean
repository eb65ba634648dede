import Liaison.Proofs.Session.Ending

/-!
# What a registry recalls

A caller may be dropped, and then its call is given up without a trace in the history. All the same, what is
pending was registered and not settled, and a reply that waits or was given to a caller is the one of the first
action that settled its call.
-/

namespace Liaison

namespace Registry

variable {r r' : Registry} {h : History} {d : Deed} {id : Nat}

structure Recalls (r : Registry) (h : History) : Prop where
  pending : ∀ id ∈ r.pending, standing id h = .waiting
  settled : ∀ id reply, r.settled.get? id = some reply → ∃ s, standing id h = .settled s ∧ s.reply? = some reply

theorem recalls_empty (h : History) : Registry.empty.Recalls h := by
  constructor
  · intro id hid
    exact absurd hid List.not_mem_nil
  · intro id reply hr
    cases hr

theorem Recalls.shrink (hr : r.Recalls h) (hp : r'.pending.Sublist r.pending)
    (hs : ∀ id reply, r'.settled.get? id = some reply → r.settled.get? id = some reply) : r'.Recalls h :=
  ⟨fun id hid => hr.pending id (hp.subset hid), fun id reply hg => hr.settled id reply (hs id reply hg)⟩

theorem Recalls.concat (hr : r.Recalls h) (hd : ∀ id ∈ r.pending, d.action.settles? id = none) :
    r.Recalls (h ++ [d]) := by
  constructor
  · intro id hid
    rw [standing_concat, hr.pending id hid, Standing.after, hd id hid]
  · intro id reply hg
    obtain ⟨s, hs, hrep⟩ := hr.settled id reply hg
    exact ⟨s, standing_concat_of_settled hs d, hrep⟩

theorem Recalls.drop (hr : r.Recalls h) (hd : ∀ i, i ≠ id → d.action.settles? i = none)
    (hp : r'.pending = r.pending.filter (· ≠ id))
    (hs : ∀ id reply, r'.settled.get? id = some reply → r.settled.get? id = some reply) :
    r'.Recalls (h ++ [d]) := by
  have hsub : r'.pending.Sublist r.pending := hp ▸ List.filter_sublist
  apply (hr.shrink hsub hs).concat
  intro i hi
  rw [hp] at hi
  exact hd i (of_decide_eq_true (List.mem_filter.mp hi).2)

theorem Recalls.settle (hr : r.Recalls h) {s : Settlement} {reply : Reply} (hd : d.Settles id s)
    (hw : id ∈ r.pending) (hs : s.reply? = some reply) : (r.settle id reply).Recalls (h ++ [d]) := by
  constructor
  · intro i hi
    obtain ⟨hi, hne⟩ := List.mem_filter.mp hi
    rw [standing_concat, hr.pending i hi, Standing.after, hd.other i (of_decide_eq_true hne)]
  · intro i reply' hg
    rw [get?_settle] at hg
    by_cases e : i = id
    · rw [if_pos e] at hg
      cases hg
      subst e
      exact ⟨s, standing_concat_of_waiting (hr.pending i hw) hd.self, hs⟩
    · rw [if_neg e] at hg
      obtain ⟨s', hs', hrep⟩ := hr.settled i reply' hg
      exact ⟨s', standing_concat_of_settled hs' d, hrep⟩

theorem Recalls.fulfill (hr : r.Recalls h) (t : TaskId) (id : Nat) (reply : Reply) :
    (r.fulfill id reply).1.Recalls (h ++ [⟨t, .fulfill id reply, ()⟩]) := by
  rw [Registry.fulfill]
  by_cases hw : id ∈ r.pending
  · rw [if_pos hw]
    exact hr.settle (settles_fulfill t id reply) hw rfl
  · have hkeep : r.Recalls (h ++ [⟨t, .fulfill id reply, ()⟩]) := by
      apply hr.concat
      intro i hi
      exact (settles_fulfill t id reply).other i fun e => hw (e ▸ hi)
    rw [if_neg hw]
    split
    · exact ⟨hkeep.pending, hkeep.settled⟩
    · exact hkeep

theorem Recalls.cancel (hr : r.Recalls h) (t : TaskId) (id : Nat) (reason : String) (answer : Bool) :
    (r.cancel id reason).1.Recalls (h ++ [⟨t, .cancel id reason, answer⟩]) := by
  rw [Registry.cancel]
  by_cases hw : id ∈ r.pending
  · rw [if_pos hw]
    exact hr.settle (settles_cancel t id reason answer) hw rfl
  · rw [if_neg hw]
    apply hr.concat
    intro i hi
    exact (settles_cancel t id reason answer).other i fun e => hw (e ▸ hi)

theorem Recalls.expire (hr : r.Recalls h) (t : TaskId) (id : Nat) (answer : Bool) :
    (r.expire id).1.Recalls (h ++ [⟨t, .expire id, answer⟩]) := by
  rw [Registry.expire]
  by_cases hw : id ∈ r.pending
  · rw [if_pos hw]
    exact hr.drop (settles_expire t id answer).other rfl fun _ _ hg => hg
  · rw [if_neg hw]
    apply hr.concat
    intro i hi
    exact (settles_expire t id answer).other i fun e => hw (e ▸ hi)

theorem get?_abandon {reply : Reply} {i : Nat} (hg : (r.abandon id).settled.get? i = some reply) :
    r.settled.get? i = some reply := by
  rw [abandon, Table.get?_erase] at hg
  split at hg
  · cases hg
  · rename_i hne
    rw [Registry.cancel] at hg
    split at hg
    · rwa [get?_settle, if_neg hne] at hg
    · exact hg

theorem pending_abandon (r : Registry) (id : Nat) : (r.abandon id).pending = r.pending.filter (· ≠ id) := by
  rw [abandon, Registry.cancel]
  split
  · rfl
  · rename_i hn
    rw [List.filter_eq_self.mpr]
    intro i hi
    exact decide_eq_true fun e => hn (e ▸ hi)

theorem Recalls.abandon (hr : r.Recalls h) (t : TaskId) (id : Nat) :
    (r.abandon id).Recalls (h ++ [⟨t, .abandon id, ()⟩]) :=
  hr.drop (settles_abandon t id).other (pending_abandon r id) fun _ _ => get?_abandon

theorem Recalls.foldl_abandon (hr : r.Recalls h) (calls : List (Nat × TaskId)) :
    (calls.foldl (fun r p => r.abandon p.1) r).Recalls h := by
  induction calls generalizing r with
  | nil => exact hr
  | cons p calls ih =>
    apply ih
    refine hr.shrink ?_ fun _ _ => get?_abandon
    rw [pending_abandon]
    exact List.filter_sublist

theorem Recalls.close (hr : r.Recalls h) (t : TaskId) (reason : String) :
    (r.closeAll reason).Recalls (h ++ [⟨t, .closeCalls reason, ()⟩]) := by
  constructor
  · intro i hi
    exact absurd hi List.not_mem_nil
  · intro i reply hg
    rw [get?_closeAll] at hg
    split at hg
    · rename_i hi
      cases hg
      exact ⟨.closed reason, standing_concat_of_waiting (hr.pending i hi) rfl, rfl⟩
    · obtain ⟨s, hs, hrep⟩ := hr.settled i reply hg
      exact ⟨s, standing_concat_of_settled hs _, hrep⟩

theorem Recalls.register (hr : r.Recalls h) (hreg : r.register id = .ok r') (hu : standing id h = .unknown)
    (t : TaskId) : r'.Recalls (h ++ [⟨t, .register id, .ok ()⟩]) := by
  rw [Registry.register] at hreg
  split at hreg
  · cases hreg
  · cases hreg
    constructor
    · intro i hi
      rcases List.mem_cons.mp hi with rfl | hi
      · exact standing_register hu t
      · obtain ⟨hi, hne⟩ := List.mem_filter.mp hi
        rw [standing_register_of_ne (of_decide_eq_true hne)]
        exact hr.pending i hi
    · intro i reply hg
      rw [Table.get?_erase] at hg
      split at hg
      · cases hg
      · rename_i hne
        rw [standing_register_of_ne hne]
        exact hr.settled i reply hg

theorem Recalls.collect (hr : r.Recalls h) {reply : Reply} (hc : r.collect? id = some (reply, r'))
    (hd : ∀ i, d.action.settles? i = none) : r'.Recalls (h ++ [d]) := by
  obtain ⟨reply', hg, he⟩ := Option.map_eq_some_iff.mp hc
  cases he
  have hkeep := hr.concat (d := d) fun i _ => hd i
  refine hkeep.shrink (List.Sublist.refl _) ?_
  intro i reply hi
  rw [Table.get?_erase] at hi
  split at hi
  · cases hi
  · exact hi

end Registry

/-! ## Sessions -/

def Deed.given? (id : Nat) : Deed → Option Reply
  | ⟨_, .awaitReply i _, some reply⟩ => if i = id then some reply else none
  | ⟨_, .collect i, some reply⟩ => if i = id then some reply else none
  | _ => none

section

variable {m m' : Machine} {h : History} {t : TaskId} {a : Action} {answer : a.Answer}

theorem recalls_perform (hr : m.registry.Recalls h) (hu : ∀ id, a = .register id → standing id h = .unknown)
    (hp : m.perform t a = some (answer, m')) : m'.registry.Recalls (h ++ [⟨t, a, answer⟩]) := by
  cases a with
  | register id =>
    simp only [Machine.perform, Machine.register] at hp
    split at hp
    · rename_i r hreg
      cases hp
      exact hr.register hreg (hu id rfl) t
    · cases hp
      exact hr.concat fun _ _ => rfl
  | awaitReply id limit =>
    simp only [Machine.perform, Machine.awaitReply] at hp
    split at hp
    · rename_i reply r hc
      cases hp
      exact hr.collect hc fun _ => rfl
    · split at hp <;> cases hp
      exact hr.concat fun _ _ => rfl
  | collect id =>
    simp only [Machine.perform, Machine.collect] at hp
    split at hp
    · rename_i reply r hc
      cases hp
      exact hr.collect hc fun _ => rfl
    · cases hp
      exact hr.concat fun _ _ => rfl
  | expire id =>
    cases hp
    exact hr.expire t id _
  | abandon id =>
    cases hp
    exact hr.abandon t id
  | fulfill id reply =>
    cases hp
    exact hr.fulfill t id reply
  | cancel id reason =>
    cases hp
    exact hr.cancel t id reason _
  | closeCalls reason =>
    cases hp
    exact hr.close t reason
  | _ =>
    rw [(spares_perform hp).registry (by simp [Action.reach])]
    exact hr.concat fun _ _ => rfl

theorem get?_of_collect? {r r' : Registry} {id : Nat} {reply : Reply} (hc : r.collect? id = some (reply, r')) :
    r.settled.get? id = some reply := by
  obtain ⟨reply', hg, he⟩ := Option.map_eq_some_iff.mp hc
  cases he
  exact hg

theorem given_perform (hp : m.perform t a = some (answer, m')) {id : Nat} {reply : Reply}
    (hg : Deed.given? id ⟨t, a, answer⟩ = some reply) : m.registry.settled.get? id = some reply := by
  cases a with
  | awaitReply i limit =>
    cases answer with
    | none => cases hg
    | some reply' =>
      obtain ⟨rfl, he⟩ : i = id ∧ reply' = reply := by simpa [Deed.given?] using hg
      subst he
      simp only [Machine.perform, Machine.awaitReply] at hp
      split at hp
      · rename_i reply r hc
        cases hp
        exact get?_of_collect? hc
      · split at hp <;> cases hp
  | collect i =>
    cases answer with
    | none => cases hg
    | some reply' =>
      obtain ⟨rfl, he⟩ : i = id ∧ reply' = reply := by simpa [Deed.given?] using hg
      subst he
      simp only [Machine.perform, Machine.collect] at hp
      split at hp
      · rename_i reply r hc
        cases hp
        exact get?_of_collect? hc
      · cases hp
  | _ => cases hg

theorem standing_concat_of_unknown {d : Deed} {id : Nat} (hu : standing id h = .unknown)
    (hd : d.registers id = false) : standing id (h ++ [d]) = .unknown := by
  rw [standing_concat, hu, Standing.after, if_neg (by simp [hd])]

theorem hold_of_registers {k : Conduct} {id : Nat} (ha : k.Allows a)
    (hr : Deed.registers id ⟨t, a, answer⟩ = true) : k.hold = .number id := by
  cases a with
  | register i =>
    cases answer with
    | ok _ => exact of_decide_eq_true hr ▸ ha
    | error e => cases hr
  | _ => cases hr

/-- A number that a task has in hand after an action it had before, or it is a new one. -/
theorem hold_number_after {k : Conduct} {id : Nat} (hp : m.perform t a = some (answer, m'))
    (h : (k.after a answer).hold = .number id) :
    (k.hold = .number id ∧ Deed.registers id ⟨t, a, answer⟩ = false) ∨ (a = .nextId ∧ id = m.nextId) := by
  cases a with
  | nextId =>
    cases hp
    cases h
    exact .inr ⟨rfl, rfl⟩
  | register i =>
    cases answer with
    | ok _ => cases h
    | error e => cases h
  | awaitReply i limit =>
    cases answer with
    | some reply => cases h
    | none => exact .inl ⟨h, rfl⟩
  | expire i =>
    cases answer with
    | true => cases h
    | false => exact .inl ⟨h, rfl⟩
  | collect i => cases h
  | abandon i => cases h
  | _ => exact .inl ⟨h, rfl⟩

end

structure Course.Recollects (x : Course) (k : Conducts) : Prop where
  held : x.machine.Sealed k
  recalls : x.machine.registry.Recalls x.history
  fresh : ∀ id, x.machine.nextId ≤ id → standing id x.history = .unknown
  numbered : ∀ t id, (k t).hold = .number id → standing id x.history = .unknown
  given : ∀ d ∈ x.history, ∀ id reply, d.given? id = some reply →
    ∃ s, standing id x.history = .settled s ∧ s.reply? = some reply

theorem Course.Recollects.perform {x : Course} {k : Conducts} (hx : x.Recollects k) {t : TaskId} {a : Action}
    {answer : a.Answer} {m : Machine} (ha : (k t).Allows a) (hp : x.machine.perform t a = some (answer, m)) :
    (⟨m, x.history ++ [⟨t, a, answer⟩]⟩ : Course).Recollects (Function.update k t ((k t).after a answer)) := by
  have hregister : ∀ id, Deed.registers id ⟨t, a, answer⟩ = true → (k t).hold = .number id :=
    fun id => hold_of_registers ha
  refine ⟨hx.held.perform ha hp, ?_, ?_, ?_, ?_⟩
  · apply recalls_perform hx.recalls ?_ hp
    rintro id rfl
    exact hx.numbered t id ha
  · intro id hid
    have hle : x.machine.nextId ≤ id := Nat.le_trans (nextId_perform hp) hid
    apply standing_concat_of_unknown (hx.fresh id hle)
    by_contra hr
    have hlt := hx.held.numbers t id (congrArg Hold.id? (hregister id (by simpa using hr)))
    omega
  · intro u id hu
    by_cases e : u = t
    · subst e
      rw [Function.update_self] at hu
      rcases hold_number_after hp hu with ⟨hold, hr⟩ | ⟨rfl, rfl⟩
      · exact standing_concat_of_unknown (hx.numbered u id hold) hr
      · exact standing_concat_of_unknown (hx.fresh _ (Nat.le_refl _)) rfl
    · rw [Function.update_of_ne e] at hu
      apply standing_concat_of_unknown (hx.numbered u id hu)
      by_contra hr
      -- It would be registered by its holder, but no two tasks hold the same number.
      have hold := hregister id (by simpa using hr)
      exact e (hx.held.single u t id (congrArg Hold.id? hu) (congrArg Hold.id? hold))
  · intro d hd id reply hg
    have hsettled : ∃ s, standing id x.history = .settled s ∧ s.reply? = some reply := by
      rcases List.mem_append.mp hd with hd | hd
      · exact hx.given d hd id reply hg
      · rw [List.mem_singleton.mp hd] at hg
        exact hx.recalls.settled id reply (given_perform hp hg)
    obtain ⟨s, hs, hrep⟩ := hsettled
    exact ⟨s, standing_concat_of_settled hs _, hrep⟩

theorem Course.Recollects.hold {x : Course} {k k' : Conducts} (hx : x.Recollects k) {m : Machine}
    (hm : m.Sealed k') (hr : m.registry.Recalls x.history) (hn : m.nextId = x.machine.nextId)
    (hk : ∀ t id, (k' t).hold = .number id → (k t).hold = .number id) :
    (⟨m, x.history⟩ : Course).Recollects k' := by
  refine ⟨hm, hr, ?_, ?_, hx.given⟩
  · intro id hid
    exact hx.fresh id (hn ▸ hid)
  · intro t id ht
    exact hx.numbered t id (hk t id ht)

theorem hold_number_of_free {k : Conducts} {t u : TaskId} {post : Option Nat} {id : Nat}
    (h : (Function.update k t (.free post) u).hold = .number id) : (k u).hold = .number id := by
  by_cases e : u = t
  · rw [e, Function.update_self] at h
    cases h
  · rwa [Function.update_of_ne e] at h

theorem invariant_recollects : Course.Invariant Course.Recollects where
  alike x k m hx hm := hx.hold (hx.held.alike hm) (hm.registry ▸ hx.recalls) hm.nextId fun _ _ ht => ht
  act _ _ _ _ _ _ hx ha hp := hx.perform ha hp
  turn x k t post post' hx _ _ :=
    hx.hold (hx.held.release post' rfl rfl rfl (.refl _ _)) hx.recalls rfl fun _ _ => hold_number_of_free
  lose x k t m hx hm := by
    have hrecalls : m.registry.Recalls x.history := by
      rw [hm.registry]
      exact hx.recalls.foldl_abandon _
    exact hx.hold (hx.held.lose hm) hrecalls hm.nextId fun _ _ => hold_number_of_free

theorem recollects_run (o : ClientOptions) (files : FileTree) (hasProcess : Bool) (occurrences : List Occurrence) :
    ∃ k, ((Course.begin o files hasProcess).run occurrences).machine.Disciplined k ∧
      ((Course.begin o files hasProcess).run occurrences).Recollects k := by
  apply invariant_recollects.run_begin
  refine ⟨sealed_blank o files, Registry.recalls_empty _, fun _ _ => rfl, fun _ _ _ => rfl, ?_⟩
  intro d hd
  exact absurd hd List.not_mem_nil

end Liaison
