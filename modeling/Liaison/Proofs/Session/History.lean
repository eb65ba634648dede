import Liaison.Session.Machine
import Mathlib.Data.List.Induction

/-!
# Histories of calls

A history says which actions were carried out, by which tasks and with which answers. It tells what became
of every call, and the registry keeps to it: what is pending was registered and not settled since, and a
reply that waits for its caller is the one of the first action that settled the call.
-/

namespace Liaison

structure Deed where
  task : TaskId
  action : Action
  answer : action.Answer

abbrev History := List Deed

theorem filterMap_concat {α β : Type} (f : α → Option β) (l : List α) (a : α) :
    (l ++ [a]).filterMap f = l.filterMap f ++ (f a).toList := by
  rw [List.filterMap_append]
  cases h : f a <;> simp [h]

theorem mem_of_isPrefix {α : Type} {l l' : List α} {a : α} (h : l ++ [a] <+: l') : a ∈ l' :=
  h.subset (List.mem_append_right _ (List.mem_singleton_self a))

theorem exists_isPrefix {α : Type} {l : List α} {a : α} (h : a ∈ l) : ∃ before, before ++ [a] <+: l := by
  obtain ⟨before, after, rfl⟩ := List.append_of_mem h
  exact ⟨before, after, by simp⟩

/-! ## Settlements -/

inductive Settlement where
  | answered (reply : Reply)
  | timedOut
  | closed (reason : String)
  | cancelled (reason : String)
  | abandoned

/-- The reply that waits for the caller. Who gives up does not get any. -/
def Settlement.reply? : Settlement → Option Reply
  | answered reply => some reply
  | closed reason => some (.error (.sessionClosed reason))
  | cancelled reason => some (.error (.cancelled reason))
  | timedOut => none
  | abandoned => none

def Action.settles? (id : Nat) : Action → Option Settlement
  | fulfill i reply => if i = id then some (.answered reply) else none
  | expire i => if i = id then some .timedOut else none
  | cancel i reason => if i = id then some (.cancelled reason) else none
  | abandon i => if i = id then some .abandoned else none
  | closeCalls reason => some (.closed reason)
  | _ => none

/-- The reason with which the action closes the registry, if it does. -/
def Action.closes? : Action → Option String
  | closeCalls reason => some reason
  | _ => none

def Deed.registers (id : Nat) : Deed → Bool
  | ⟨_, .register i, .ok ()⟩ => i = id
  | _ => false

inductive Standing where
  | unknown
  | waiting
  | settled (s : Settlement)

/-- What is known of a call after another deed. Only the first one that settles it counts. -/
def Standing.after (id : Nat) (d : Deed) : Standing → Standing
  | unknown => if d.registers id then waiting else unknown
  | waiting =>
    match d.action.settles? id with
    | some s => settled s
    | none => waiting
  | settled s => settled s

/-- What is known of a call after all that was done. -/
def standing (id : Nat) (h : History) : Standing :=
  h.foldl (fun s d => s.after id d) .unknown

def closing? (h : History) : Option String :=
  h.findSome? fun d => d.action.closes?

theorem standing_concat (id : Nat) (h : History) (d : Deed) :
    standing id (h ++ [d]) = (standing id h).after id d := by
  rw [standing, List.foldl_append]
  rfl

theorem closing?_concat (h : History) (d : Deed) : closing? (h ++ [d]) = (closing? h).or d.action.closes? := by
  rw [closing?, List.findSome?_append]
  cases hc : d.action.closes? <;> simp [closing?, hc]

theorem standing_concat_of_settled {id : Nat} {h : History} {s : Settlement} (hs : standing id h = .settled s)
    (d : Deed) : standing id (h ++ [d]) = .settled s := by
  rw [standing_concat, hs]
  rfl

theorem standing_concat_of_neutral {id : Nat} {d : Deed} (hs : d.action.settles? id = none)
    (hr : d.registers id = false) (h : History) : standing id (h ++ [d]) = standing id h := by
  rw [standing_concat]
  cases standing id h with
  | unknown => rw [Standing.after, hr, if_neg Bool.false_ne_true]
  | waiting => rw [Standing.after, hs]
  | settled s => rfl

theorem standing_concat_of_waiting {id : Nat} {h : History} {d : Deed} {s : Settlement}
    (hw : standing id h = .waiting) (hs : d.action.settles? id = some s) :
    standing id (h ++ [d]) = .settled s := by
  rw [standing_concat, hw, Standing.after, hs]

theorem registers_register (i id : Nat) (t : TaskId) :
    Deed.registers i ⟨t, .register id, .ok ()⟩ = decide (id = i) := rfl

theorem standing_register {id : Nat} {h : History} (hu : standing id h = .unknown) (t : TaskId) :
    standing id (h ++ [⟨t, .register id, .ok ()⟩]) = .waiting := by
  rw [standing_concat, hu, Standing.after, registers_register, decide_eq_true rfl, if_pos rfl]

theorem standing_register_of_ne {i id : Nat} (hi : i ≠ id) (h : History) (t : TaskId) :
    standing i (h ++ [⟨t, .register id, .ok ()⟩]) = standing i h := by
  refine standing_concat_of_neutral rfl ?_ h
  rw [registers_register, decide_eq_false (Ne.symm hi)]

theorem exists_register_of_standing {id : Nat} {h : History} (hs : standing id h ≠ .unknown) :
    ∃ d ∈ h, d.registers id = true := by
  induction h using List.reverseRecOn with
  | nil => exact absurd rfl hs
  | append_singleton h d ih =>
    by_cases hr : d.registers id = true
    · exact ⟨d, List.mem_append_right _ (List.mem_singleton_self d), hr⟩
    · have hk : standing id h ≠ .unknown := by
        intro hu
        rw [standing_concat, hu, Standing.after, if_neg hr] at hs
        exact hs rfl
      obtain ⟨d', hd', hr'⟩ := ih hk
      exact ⟨d', List.mem_append_left _ hd', hr'⟩

/-! ## The registry -/

structure Registry.Tracks (r : Registry) (h : History) : Prop where
  pending : ∀ id, id ∈ r.pending ↔ standing id h = .waiting
  settled : ∀ id reply, r.settled.get? id = some reply → ∃ s, standing id h = .settled s ∧ s.reply? = some reply
  closed : r.closed = closing? h

/-- The caller of a registered call will not wait in vain: the call is not settled, or its reply is there. -/
def Registry.Holds (r : Registry) (h : History) (id : Nat) : Prop :=
  standing id h = .waiting ∨
    ∃ s reply, standing id h = .settled s ∧ s.reply? = some reply ∧ r.settled.get? id = some reply

structure Deed.IsNeutral (d : Deed) : Prop where
  settles : ∀ id, d.action.settles? id = none
  registers : ∀ id, d.registers id = false
  closes : d.action.closes? = none

structure Deed.Settles (d : Deed) (id : Nat) (s : Settlement) : Prop where
  self : d.action.settles? id = some s
  other : ∀ i, i ≠ id → d.action.settles? i = none
  registers : ∀ i, d.registers i = false
  closes : d.action.closes? = none

namespace Registry

variable {r : Registry} {h : History} {d : Deed} {id i : Nat}

theorem tracks_empty : Registry.empty.Tracks [] := by
  refine ⟨fun id => ⟨fun hm => absurd hm List.not_mem_nil, ?_⟩, ?_, rfl⟩
  · intro hw
    cases hw
  · intro id reply hr
    cases hr

theorem Tracks.neutral (ht : r.Tracks h) (hd : d.IsNeutral) {r' : Registry} (hp : r'.pending = r.pending)
    (hc : r'.closed = r.closed) (hs : ∀ id reply, r'.settled.get? id = some reply → r.settled.get? id = some reply) :
    r'.Tracks (h ++ [d]) := by
  have hsame : ∀ id, standing id (h ++ [d]) = standing id h := fun id =>
    standing_concat_of_neutral (hd.settles id) (hd.registers id) h
  refine ⟨?_, ?_, ?_⟩
  · intro id
    rw [hp, hsame]
    exact ht.pending id
  · intro id reply hr
    rw [hsame]
    exact ht.settled id reply (hs id reply hr)
  · rw [hc, closing?_concat, hd.closes, Option.or_none]
    exact ht.closed

theorem Holds.neutral (hh : r.Holds h i) (hd : d.IsNeutral) {r' : Registry}
    (hs : r'.settled.get? i = r.settled.get? i) : r'.Holds (h ++ [d]) i := by
  rw [Holds, standing_concat_of_neutral (hd.settles i) (hd.registers i), hs]
  exact hh

/-! ### Registration -/

theorem Tracks.register (ht : r.Tracks h) {r' : Registry} (hr : r.register id = .ok r')
    (hu : standing id h = .unknown) (t : TaskId) : r'.Tracks (h ++ [⟨t, .register id, .ok ()⟩]) := by
  unfold Registry.register at hr
  split at hr
  · cases hr
  · rename_i hopen
    cases hr
    refine ⟨?_, ?_, ?_⟩
    · intro i
      by_cases e : i = id
      · rw [e, standing_register hu]
        simp
      · rw [standing_register_of_ne e, ← ht.pending]
        simp [e]
    · intro i reply hi
      rw [Table.get?_erase] at hi
      split at hi
      · cases hi
      · rename_i e
        rw [standing_register_of_ne e]
        exact ht.settled i reply hi
    · rw [closing?_concat]
      exact ht.closed.trans (Option.or_none).symm

theorem Holds.register {r' : Registry} (hr : r.register id = .ok r') (hu : standing id h = .unknown) (t : TaskId)
    (hh : i = id ∨ r.Holds h i) : r'.Holds (h ++ [⟨t, .register id, .ok ()⟩]) i := by
  by_cases e : i = id
  · exact .inl (e ▸ standing_register hu t)
  · unfold Registry.register at hr
    split at hr
    · cases hr
    · cases hr
      rw [Holds, standing_register_of_ne e, Table.get?_erase, if_neg e]
      exact hh.resolve_left e

/-! ### Settling one call -/

theorem Tracks.unsettled (ht : r.Tracks h) {s : Settlement} (hd : d.Settles id s) (hn : id ∉ r.pending)
    {r' : Registry} (hp : r'.pending = r.pending) (hc : r'.closed = r.closed)
    (hs : ∀ id reply, r'.settled.get? id = some reply → r.settled.get? id = some reply) :
    r'.Tracks (h ++ [d]) := by
  have hsame : ∀ i, standing i (h ++ [d]) = standing i h := by
    intro i
    by_cases e : i = id
    · have hw : standing i h ≠ .waiting := fun hw => hn ((ht.pending id).mpr (e ▸ hw))
      rw [standing_concat]
      cases hst : standing i h with
      | unknown => rw [Standing.after, hd.registers, if_neg Bool.false_ne_true]
      | waiting => exact absurd hst hw
      | settled s => rfl
    · exact standing_concat_of_neutral (hd.other i e) (hd.registers i) h
  refine ⟨?_, ?_, ?_⟩
  · intro i
    rw [hp, hsame]
    exact ht.pending i
  · intro i reply hr
    rw [hsame]
    exact ht.settled i reply (hs i reply hr)
  · rw [hc, closing?_concat, hd.closes, Option.or_none]
    exact ht.closed

/-- A deed that settles a pending call takes it from the pending ones, and its reply is there for a caller that
gets one. -/
theorem Tracks.settle (ht : r.Tracks h) {s : Settlement} (hd : d.Settles id s) (hw : id ∈ r.pending)
    {r' : Registry} (hp : r'.pending = r.pending.filter (· ≠ id)) (hc : r'.closed = r.closed)
    (hs : ∀ i reply, r'.settled.get? i = some reply →
      if i = id then s.reply? = some reply else r.settled.get? i = some reply) :
    r'.Tracks (h ++ [d]) := by
  have hself : standing id (h ++ [d]) = .settled s :=
    standing_concat_of_waiting ((ht.pending id).mp hw) hd.self
  have hother : ∀ i, i ≠ id → standing i (h ++ [d]) = standing i h := fun i e =>
    standing_concat_of_neutral (hd.other i e) (hd.registers i) h
  refine ⟨?_, ?_, ?_⟩
  · intro i
    by_cases e : i = id
    · rw [e, hself, hp]
      simp
    · rw [hother i e, hp, ← ht.pending]
      simp [e]
  · intro i reply hr
    have hi := hs i reply hr
    by_cases e : i = id
    · rw [if_pos e] at hi
      exact ⟨s, e ▸ hself, hi⟩
    · rw [if_neg e] at hi
      rw [hother i e]
      exact ht.settled i reply hi
  · rw [hc, closing?_concat, hd.closes, Option.or_none]
    exact ht.closed

theorem Holds.of_ne (hh : r.Holds h i) {s : Settlement} (hd : d.Settles id s) (hi : i ≠ id) {r' : Registry}
    (hs : r'.settled.get? i = r.settled.get? i) : r'.Holds (h ++ [d]) i := by
  rw [Holds, standing_concat_of_neutral (hd.other i hi) (hd.registers i), hs]
  exact hh

/-- A reply that comes for a call either is the one that settles it, or is too late. -/
theorem Holds.of_self (hh : r.Holds h id) (ht : r.Tracks h) {s : Settlement} (hd : d.Settles id s) {reply : Reply}
    (hr : s.reply? = some reply) {r' : Registry} (hp : id ∈ r.pending → r'.settled.get? id = some reply)
    (hn : id ∉ r.pending → r'.settled.get? id = r.settled.get? id) : r'.Holds (h ++ [d]) id := by
  rcases hh with hw | ⟨s', reply', hst, hr', hg⟩
  · exact .inr ⟨s, reply, standing_concat_of_waiting hw hd.self, hr, hp ((ht.pending id).mpr hw)⟩
  · have hnot : id ∉ r.pending := fun hm => by
      rw [(ht.pending id).mp hm] at hst
      cases hst
    exact .inr ⟨s', reply', standing_concat_of_settled hst d, hr', (hn hnot).trans hg⟩

theorem settles_fulfill (t : TaskId) (id : Nat) (reply : Reply) :
    Deed.Settles ⟨t, .fulfill id reply, ()⟩ id (.answered reply) :=
  ⟨if_pos rfl, fun _ hi => if_neg (Ne.symm hi), fun _ => rfl, rfl⟩

theorem settles_cancel (t : TaskId) (id : Nat) (reason : String) (answer : Bool) :
    Deed.Settles ⟨t, .cancel id reason, answer⟩ id (.cancelled reason) :=
  ⟨if_pos rfl, fun _ hi => if_neg (Ne.symm hi), fun _ => rfl, rfl⟩

theorem settles_expire (t : TaskId) (id : Nat) (answer : Bool) :
    Deed.Settles ⟨t, .expire id, answer⟩ id .timedOut :=
  ⟨if_pos rfl, fun _ hi => if_neg (Ne.symm hi), fun _ => rfl, rfl⟩

theorem settles_abandon (t : TaskId) (id : Nat) : Deed.Settles ⟨t, .abandon id, ()⟩ id .abandoned :=
  ⟨if_pos rfl, fun _ hi => if_neg (Ne.symm hi), fun _ => rfl, rfl⟩

theorem get?_settle (r : Registry) (id i : Nat) (reply : Reply) :
    (r.settle id reply).settled.get? i = if i = id then some reply else r.settled.get? i :=
  Table.get?_insert i id reply r.settled

theorem Tracks.answer (ht : r.Tracks h) {s : Settlement} (hd : d.Settles id s) (hw : id ∈ r.pending) {reply : Reply}
    (hr : s.reply? = some reply) : (r.settle id reply).Tracks (h ++ [d]) := by
  refine ht.settle hd hw rfl rfl ?_
  intro i reply' hi
  rw [get?_settle] at hi
  by_cases e : i = id
  · rw [if_pos e] at hi ⊢
    exact hr.trans hi
  · rw [if_neg e] at hi ⊢
    exact hi

/-- The registry after a response: the reply is stored if the call is pending. -/
theorem fulfill_cases (r : Registry) (id : Nat) (reply : Reply) :
    (id ∈ r.pending ∧ (r.fulfill id reply).1 = r.settle id reply) ∨
      (id ∉ r.pending ∧ (r.fulfill id reply).1.pending = r.pending ∧ (r.fulfill id reply).1.closed = r.closed ∧
        (r.fulfill id reply).1.settled = r.settled) := by
  unfold fulfill
  by_cases hp : id ∈ r.pending
  · rw [if_pos hp]
    exact .inl ⟨hp, rfl⟩
  · rw [if_neg hp]
    split
    all_goals exact .inr ⟨hp, rfl, rfl, rfl⟩

theorem Tracks.fulfill (ht : r.Tracks h) (t : TaskId) (id : Nat) (reply : Reply) :
    (r.fulfill id reply).1.Tracks (h ++ [⟨t, .fulfill id reply, ()⟩]) := by
  have hd := settles_fulfill t id reply
  rcases r.fulfill_cases id reply with ⟨hp, e⟩ | ⟨hp, e₁, e₂, e₃⟩
  · rw [e]
    exact ht.answer hd hp rfl
  · exact ht.unsettled hd hp e₁ e₂ fun i reply' hi => e₃ ▸ hi

theorem Holds.fulfill (hh : r.Holds h i) (ht : r.Tracks h) (t : TaskId) (id : Nat) (reply : Reply) :
    (r.fulfill id reply).1.Holds (h ++ [⟨t, .fulfill id reply, ()⟩]) i := by
  have hd := settles_fulfill t id reply
  by_cases e : i = id
  · subst e
    refine hh.of_self ht hd rfl ?_ ?_
    · intro hp
      rcases r.fulfill_cases i reply with ⟨-, e⟩ | ⟨hn, -⟩
      · rw [e, get?_settle, if_pos rfl]
      · exact absurd hp hn
    · intro hp
      rcases r.fulfill_cases i reply with ⟨hp', -⟩ | ⟨-, -, -, e⟩
      · exact absurd hp' hp
      · rw [e]
  · refine hh.of_ne hd e ?_
    rcases r.fulfill_cases id reply with ⟨-, e'⟩ | ⟨-, -, -, e'⟩
    · rw [e', get?_settle, if_neg e]
    · rw [e']

theorem Tracks.cancel (ht : r.Tracks h) (t : TaskId) (id : Nat) (reason : String) (answer : Bool) :
    (r.cancel id reason).1.Tracks (h ++ [⟨t, .cancel id reason, answer⟩]) := by
  have hd := settles_cancel t id reason answer
  unfold Registry.cancel
  by_cases hp : id ∈ r.pending
  · rw [if_pos hp]
    exact ht.answer hd hp rfl
  · rw [if_neg hp]
    exact ht.unsettled hd hp rfl rfl fun _ _ hi => hi

theorem Holds.cancel (hh : r.Holds h i) (ht : r.Tracks h) (t : TaskId) (id : Nat) (reason : String)
    (answer : Bool) : (r.cancel id reason).1.Holds (h ++ [⟨t, .cancel id reason, answer⟩]) i := by
  have hd := settles_cancel t id reason answer
  unfold Registry.cancel
  by_cases e : i = id
  · subst e
    refine hh.of_self ht hd rfl ?_ ?_
    · intro hp
      rw [if_pos hp, get?_settle, if_pos rfl]
    · intro hp
      rw [if_neg hp]
  · refine hh.of_ne hd e ?_
    split
    · exact (get?_settle _ _ _ _).trans (if_neg e)
    · rfl

theorem Tracks.expire (ht : r.Tracks h) (t : TaskId) (id : Nat) (answer : Bool) :
    (r.expire id).1.Tracks (h ++ [⟨t, .expire id, answer⟩]) := by
  have hd := settles_expire t id answer
  unfold Registry.expire
  by_cases hp : id ∈ r.pending
  · rw [if_pos hp]
    refine ht.settle hd hp rfl rfl ?_
    intro i reply hi
    have hne : i ≠ id := by
      rintro rfl
      obtain ⟨s, hs, -⟩ := ht.settled i reply hi
      rw [(ht.pending i).mp hp] at hs
      cases hs
    rw [if_neg hne]
    exact hi
  · rw [if_neg hp]
    exact ht.unsettled hd hp rfl rfl fun _ _ hi => hi

theorem Holds.expire (hh : r.Holds h i) (t : TaskId) {id : Nat} (hi : i ≠ id) (answer : Bool) :
    (r.expire id).1.Holds (h ++ [⟨t, .expire id, answer⟩]) i := by
  refine hh.of_ne (settles_expire t id answer) hi ?_
  unfold Registry.expire
  split
  all_goals rfl

theorem Tracks.abandon (ht : r.Tracks h) (t : TaskId) (id : Nat) :
    (r.abandon id).Tracks (h ++ [⟨t, .abandon id, ()⟩]) := by
  have hd := settles_abandon t id
  unfold Registry.abandon Registry.cancel
  by_cases hp : id ∈ r.pending
  · rw [if_pos hp]
    refine ht.settle hd hp rfl rfl ?_
    intro i reply hi
    change (Table.erase id (r.settle id _).settled).get? i = some reply at hi
    rw [Table.get?_erase] at hi
    split at hi
    · cases hi
    · rename_i e
      rw [get?_settle, if_neg e] at hi
      rw [if_neg e]
      exact hi
  · rw [if_neg hp]
    refine ht.unsettled hd hp rfl rfl ?_
    intro i reply hi
    change (Table.erase id r.settled).get? i = some reply at hi
    rw [Table.get?_erase] at hi
    split at hi
    · cases hi
    · exact hi

theorem Holds.abandon (hh : r.Holds h i) (t : TaskId) {id : Nat} (hi : i ≠ id) :
    (r.abandon id).Holds (h ++ [⟨t, .abandon id, ()⟩]) i := by
  refine hh.of_ne (settles_abandon t id) hi ?_
  change (Table.erase id (r.cancel id abandonReason).1.settled).get? i = _
  rw [Table.get?_erase, if_neg hi]
  unfold Registry.cancel
  split
  · exact (get?_settle _ _ _ _).trans (if_neg hi)
  · rfl

/-! ### Closing -/

theorem get?_closeAll (r : Registry) (reason : String) (i : Nat) :
    (r.closeAll reason).settled.get? i =
      if i ∈ r.pending then some (.error (.sessionClosed reason)) else r.settled.get? i := by
  have key : ∀ (pending : List Nat) (t : Table Nat Reply),
      Table.get? i (pending.foldl (fun t id => t.insert id (.error (.sessionClosed reason))) t) =
        if i ∈ pending then some (.error (.sessionClosed reason)) else t.get? i := by
    intro pending
    induction pending with
    | nil => intro t; simp
    | cons id pending ih =>
      intro t
      rw [List.foldl_cons, ih, Table.get?_insert]
      by_cases hi : i ∈ pending
      · simp [hi]
      · by_cases e : i = id
        · simp [e]
        · simp [hi, e]
  exact key r.pending r.settled

theorem standing_close (t : TaskId) (reason : String) (h : History) (i : Nat) :
    standing i (h ++ [⟨t, .closeCalls reason, ()⟩]) =
      match standing i h with
      | .waiting => .settled (.closed reason)
      | s => s := by
  rw [standing_concat]
  cases standing i h <;> rfl

theorem Tracks.close (ht : r.Tracks h) (t : TaskId) (reason : String) :
    (r.closeAll reason).Tracks (h ++ [⟨t, .closeCalls reason, ()⟩]) := by
  refine ⟨?_, ?_, ?_⟩
  · intro i
    rw [standing_close]
    refine ⟨fun hm => absurd hm List.not_mem_nil, ?_⟩
    intro hs
    cases hst : standing i h with
    | waiting => rw [hst] at hs; cases hs
    | unknown => rw [hst] at hs; cases hs
    | settled s => rw [hst] at hs; cases hs
  · intro i reply hi
    rw [get?_closeAll] at hi
    rw [standing_close]
    split at hi
    · rename_i hp
      rw [(ht.pending i).mp hp]
      exact ⟨_, rfl, hi⟩
    · obtain ⟨s, hs, hr⟩ := ht.settled i reply hi
      rw [hs]
      exact ⟨s, rfl, hr⟩
  · rw [closing?_concat, ← ht.closed]
    change some (r.closed.getD reason) = r.closed.or (some reason)
    cases r.closed <;> rfl

theorem Holds.close (hh : r.Holds h i) (ht : r.Tracks h) (t : TaskId) (reason : String) :
    (r.closeAll reason).Holds (h ++ [⟨t, .closeCalls reason, ()⟩]) i := by
  rw [Holds, standing_close, get?_closeAll]
  rcases hh with hw | ⟨s, reply, hs, hr, hg⟩
  · rw [hw, if_pos ((ht.pending i).mpr hw)]
    exact .inr ⟨_, _, rfl, rfl, rfl⟩
  · have hnot : i ∉ r.pending := fun hm => by
      rw [(ht.pending i).mp hm] at hs
      cases hs
    rw [hs, if_neg hnot]
    exact .inr ⟨s, reply, rfl, hr, hg⟩

end Registry

end Liaison
