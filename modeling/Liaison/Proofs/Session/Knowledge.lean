import Liaison.Proofs.Session.Steps
import Liaison.Proofs.Session.Verdict
import Mathlib.Data.List.Nodup

/-!
# What is known of a call

At every stage the history tells of a call what it needs to know. What other tasks do does not change that,
and what the call itself does leads to what is to be known at the next stage, at last to the verdict.
-/

namespace Liaison

/-! ## Registrations -/

def Unasked (id : Nat) (h : History) : Prop :=
  ∀ d ∈ h, d.action ≠ .register id

section

variable {h : History} {d : Deed} {id : Nat}

theorem action_of_registers (hd : d.registers id = true) : d.action = .register id := by
  obtain ⟨t, action, answer⟩ := d
  cases action with
  | register i =>
    cases answer with
    | ok _ => rw [of_decide_eq_true hd]
    | error e => cases hd
  | _ => cases hd

theorem registers_of_ne (hd : d.action ≠ .register id) : d.registers id = false := by
  by_contra hr
  exact hd (action_of_registers (Bool.not_eq_false _ ▸ hr))

theorem Unasked.standing (hu : Unasked id h) : standing id h = .unknown := by
  by_contra hs
  obtain ⟨d, hd, hr⟩ := exists_register_of_standing hs
  exact hu d hd (action_of_registers hr)

theorem Unasked.concat (hu : Unasked id h) (hd : d.action ≠ .register id) : Unasked id (h ++ [d]) := by
  intro e he
  rcases List.mem_append.mp he with he | he
  · exact hu e he
  · rw [List.mem_singleton.mp he]
    exact hd

theorem standing_concat_ne_unknown (hs : standing id h ≠ .unknown) (d : Deed) :
    standing id (h ++ [d]) ≠ .unknown := by
  rw [standing_concat]
  cases hst : standing id h with
  | unknown => exact absurd hst hs
  | waiting =>
    intro hu
    rw [Standing.after] at hu
    split at hu <;> cases hu
  | settled s =>
    intro hu
    cases hu

/-- A call that does not wait does not begin to, unless it is taken in. -/
theorem standing_concat_ne_waiting (hs : standing id h ≠ .waiting) (hd : d.registers id = false) :
    standing id (h ++ [d]) ≠ .waiting := by
  rw [standing_concat]
  cases hst : standing id h with
  | unknown =>
    intro hw
    rw [Standing.after, hd, if_neg Bool.false_ne_true] at hw
    cases hw
  | waiting => exact absurd hst hs
  | settled s =>
    intro hw
    cases hw

theorem Registry.Holds.standing_ne {r : Registry} (hh : r.Holds h id) : standing id h ≠ .unknown := by
  intro hu
  rcases hh with hw | ⟨s, reply, hs, -⟩
  · rw [hu] at hw
    cases hw
  · rw [hu] at hs
    cases hs

end

/-! ## Stages -/

namespace CallStage

def Known (r : Registry) (h : History) (t : TaskId) (o : Order) : CallStage → Prop
  | numbering => t ∉ (numbers h).map Prod.fst
  | timing id => (t, id) ∈ numbers h ∧ Unasked id h ∧ fate id h = .dropped
  | registering id _ => (t, id) ∈ numbers h ∧ Unasked id h ∧ fate id h = .dropped
  | handing id _ => (t, id) ∈ numbers h ∧ r.Holds h id ∧ fate id h = .dropped
  | sent id _ _ => (t, id) ∈ numbers h ∧ r.Holds h id
  | givingUp id e => (t, id) ∈ numbers h ∧ standing id h ≠ .unknown ∧ (fate id h).error? = some e
  | waiting id _ => (t, id) ∈ numbers h ∧ r.Holds h id ∧ fate id h = .written
  | expiring id => (t, id) ∈ numbers h ∧ r.Holds h id ∧ fate id h = .written
  | collecting id => (t, id) ∈ numbers h ∧ r.Holds h id ∧ standing id h ≠ .waiting ∧ fate id h = .written
  | ended result => ∃ id, (t, id) ∈ numbers h ∧ verdict? o id h = some result

def sentId? : CallStage → Option Nat
  | sent id _ _ => some id
  | _ => none

def id? : CallStage → Option Nat
  | numbering => none
  | timing id => some id
  | registering id _ => some id
  | handing id _ => some id
  | sent id _ _ => some id
  | givingUp id _ => some id
  | waiting id _ => some id
  | expiring id => some id
  | collecting id => some id
  | ended _ => none

section

variable {r r' : Registry} {h : History} {t : TaskId} {o : Order} {s : CallStage} {d : Deed} {id : Nat}

theorem Known.mem_numbers (hk : s.Known r h t o) (hi : s.id? = some id) : (t, id) ∈ numbers h := by
  cases s with
  | numbering => cases hi
  | ended result => cases hi
  | _ => exact Option.some.inj hi ▸ hk.1

theorem mem_numbers_concat {p : TaskId × Nat} (hp : p ∈ numbers h) (d : Deed) : p ∈ numbers (h ++ [d]) := by
  rw [numbers_concat]
  exact List.mem_append_left _ hp

theorem Known.of_other (hk : s.Known r h t o) (hn : ∀ p, d.number? = some p → p.1 ≠ t)
    (ha : ∀ i, (t, i) ∈ numbers h → d.action ≠ .register i)
    (hh : ∀ i, (t, i) ∈ numbers h → r.Holds h i → r'.Holds (h ++ [d]) i)
    (hf : ∀ i, (t, i) ∈ numbers h → s.sentId? ≠ some i → fate i (h ++ [d]) = fate i h) :
    s.Known r' (h ++ [d]) t o := by
  have hf' : s.sentId? = none → ∀ i, (t, i) ∈ numbers h → fate i (h ++ [d]) = fate i h := by
    intro hs i hi
    apply hf i hi
    rw [hs]
    exact (Option.some_ne_none i).symm
  cases s with
  | numbering =>
    intro hm
    rw [numbers_concat, List.map_append, List.mem_append] at hm
    rcases hm with hm | hm
    · exact hk hm
    · obtain ⟨p, hp, rfl⟩ := List.mem_map.mp hm
      exact hn p (Option.mem_toList.mp hp) rfl
  | timing id =>
    obtain ⟨hm, hu, hd⟩ := hk
    exact ⟨mem_numbers_concat hm d, hu.concat (ha id hm), (hf' rfl id hm).trans hd⟩
  | registering id limit =>
    obtain ⟨hm, hu, hd⟩ := hk
    exact ⟨mem_numbers_concat hm d, hu.concat (ha id hm), (hf' rfl id hm).trans hd⟩
  | handing id limit =>
    obtain ⟨hm, hr, hd⟩ := hk
    exact ⟨mem_numbers_concat hm d, hh id hm hr, (hf' rfl id hm).trans hd⟩
  | sent id limit ticket =>
    obtain ⟨hm, hr⟩ := hk
    exact ⟨mem_numbers_concat hm d, hh id hm hr⟩
  | givingUp id e =>
    obtain ⟨hm, hs, he⟩ := hk
    exact ⟨mem_numbers_concat hm d, standing_concat_ne_unknown hs d, by rw [hf' rfl id hm, he]⟩
  | waiting id limit =>
    obtain ⟨hm, hr, hd⟩ := hk
    exact ⟨mem_numbers_concat hm d, hh id hm hr, (hf' rfl id hm).trans hd⟩
  | expiring id =>
    obtain ⟨hm, hr, hd⟩ := hk
    exact ⟨mem_numbers_concat hm d, hh id hm hr, (hf' rfl id hm).trans hd⟩
  | collecting id =>
    obtain ⟨hm, hr, hw, hd⟩ := hk
    exact ⟨mem_numbers_concat hm d, hh id hm hr, standing_concat_ne_waiting hw (registers_of_ne (ha id hm)),
      (hf' rfl id hm).trans hd⟩
  | ended result =>
    obtain ⟨id, hm, hv⟩ := hk
    exact ⟨id, mem_numbers_concat hm d, verdict?_concat hv (registers_of_ne (ha id hm)) (hf' rfl id hm)⟩

/-! ### Steps -/

variable {m m₁ : Machine} {s' : CallStage}

theorem Step.write (hs : Step o m t s d s' m₁) : d.write? = none := by
  cases hs <;> rfl

theorem Step.fate (hs : Step o m t s d s' m₁) (id : Nat) : fate id (h ++ [d]) = Liaison.fate id h :=
  fate_concat fun result hr => by rw [hs.write] at hr; cases hr

theorem mem_numbers_number (h : History) (t : TaskId) (id : Nat) : (t, id) ∈ numbers (h ++ [⟨t, .nextId, id⟩]) := by
  rw [numbers_concat]
  exact List.mem_append_right _ (List.mem_singleton_self _)

theorem verdict_of_settled (ht : r.Tracks h) {reply : Reply} (hg : r.settled.get? id = some reply)
    (hf : Liaison.fate id h = .written) : verdict? o id h = some (reply.map .answer) := by
  obtain ⟨s, hs, hr⟩ := ht.settled id reply hg
  rw [verdict?_of_written hs hf, result?_of_reply? hr]

theorem Known.step (hk : s.Known m.registry h t o) (hs : Step o m t s d s' m₁) (ht : m.registry.Tracks h)
    (hfresh : Unasked m.nextId h ∧ Liaison.fate m.nextId h = .dropped)
    (hmail : ∀ id limit k receipt, s = .sent id limit k → m.outbox.receipts.get? k = some receipt →
      Liaison.fate id h = receipt) :
    s'.Known m₁.registry (h ++ [d]) t o := by
  have hfate : ∀ id, Liaison.fate id (h ++ [d]) = Liaison.fate id h := hs.fate
  have hmem : ∀ {id}, (t, id) ∈ numbers h → (t, id) ∈ numbers (h ++ [d]) := fun hm => mem_numbers_concat hm d
  cases hs with
  | number =>
    refine ⟨mem_numbers_number h t m.nextId, hfresh.1.concat ?_, (hfate _).trans hfresh.2⟩
    intro he
    cases he
  | time id =>
    obtain ⟨hm, hu, hd⟩ := hk
    refine ⟨hmem hm, hu.concat ?_, (hfate id).trans hd⟩
    intro he
    cases he
  | register id limit r hr =>
    obtain ⟨hm, hu, hd⟩ := hk
    exact ⟨hmem hm, Registry.Holds.register hr hu.standing t (.inl rfl), (hfate id).trans hd⟩
  | refuse id limit e hr =>
    obtain ⟨hm, hu, hd⟩ := hk
    rw [Registry.register] at hr
    split at hr
    · rename_i reason hc
      cases hr
      refine ⟨id, hmem hm, ?_⟩
      exact verdict?_concat (verdict?_of_refused hu.standing (ht.closed.symm.trans hc)) rfl (hfate id)
    · cases hr
  | hand id limit hstop =>
    obtain ⟨hm, hh, hd⟩ := hk
    exact ⟨hmem hm, hh.neutral ⟨fun _ => rfl, fun _ => rfl, rfl⟩ rfl⟩
  | miss id limit hstop =>
    obtain ⟨hm, hh, hd⟩ := hk
    exact ⟨hmem hm, standing_concat_ne_unknown hh.standing_ne _, congrArg Receipt.error? ((hfate id).trans hd)⟩
  | hear id limit ticket receipt hr =>
    obtain ⟨hm, hh⟩ := hk
    have hd := hmail id limit ticket receipt rfl hr
    have hh' : m.registry.Holds (h ++ [⟨t, .awaitReceipt ticket, receipt⟩]) id :=
      hh.neutral ⟨fun _ => rfl, fun _ => rfl, rfl⟩ rfl
    cases receipt with
    | written => exact ⟨hmem hm, hh', (hfate id).trans hd⟩
    | failed reason => exact ⟨hmem hm, hh'.standing_ne, congrArg Receipt.error? ((hfate id).trans hd)⟩
    | dropped => exact ⟨hmem hm, hh'.standing_ne, congrArg Receipt.error? ((hfate id).trans hd)⟩
  | giveUp id e =>
    obtain ⟨hm, hn, hd⟩ := hk
    refine ⟨id, hmem hm, ?_⟩
    rw [← hfate] at hd
    cases hst : standing id h with
    | unknown => exact absurd hst hn
    | waiting => exact verdict?_of_unwritten (standing_concat_of_waiting hst (if_pos rfl)) hd
    | settled s => exact verdict?_of_unwritten (standing_concat_of_settled hst _) hd
  | take id limit reply hg =>
    obtain ⟨hm, hh, hd⟩ := hk
    exact ⟨id, hmem hm, verdict?_concat (verdict_of_settled ht hg hd) rfl (hfate id)⟩
  | tire id limit hg ho =>
    obtain ⟨hm, hh, hd⟩ := hk
    exact ⟨hmem hm, hh.neutral ⟨fun _ => rfl, fun _ => rfl, rfl⟩ rfl, (hfate id).trans hd⟩
  | expire id hp =>
    obtain ⟨hm, hh, hd⟩ := hk
    rw [← hfate] at hd
    have hst : standing id (h ++ [⟨t, .expire id, true⟩]) = .settled .timedOut :=
      standing_concat_of_waiting ((ht.pending id).mp hp) (if_pos rfl)
    exact ⟨id, hmem hm, verdict?_of_written hst hd⟩
  | outrun id hp =>
    obtain ⟨hm, hh, hd⟩ := hk
    have hw : standing id h ≠ .waiting := fun hw => hp ((ht.pending id).mpr hw)
    obtain ⟨s, reply, hst, hr, hg⟩ := hh.resolve_left hw
    have hst' := standing_concat_of_settled hst ⟨t, .expire id, false⟩
    refine ⟨hmem hm, .inr ⟨s, reply, hst', hr, ?_⟩, ?_, (hfate id).trans hd⟩
    · rw [Registry.expire, if_neg hp]
      exact hg
    · intro hw
      rw [hst'] at hw
      cases hw
  | collect id reply hg =>
    obtain ⟨hm, hh, hw, hd⟩ := hk
    exact ⟨id, hmem hm, verdict?_concat (verdict_of_settled ht hg hd) rfl (hfate id)⟩
  | lack id hg =>
    obtain ⟨hm, hh, hw, hd⟩ := hk
    obtain ⟨s, reply, -, -, hg'⟩ := hh.resolve_left hw
    rw [hg] at hg'
    cases hg'

end

end CallStage

/-! ## The registry and the tasks -/

namespace Duty

def id? : Duty → Option Nat
  | call _ s => s.id?
  | _ => none

section

variable {m m₁ : Machine} {h : History} {t : TaskId} {d d' : Duty} {deed : Deed} {i : Nat}

theorem Step.asks (hs : Step m t d deed d' m₁) (hi : d.id? ≠ some i) : deed.action ≠ .register i := by
  intro he
  cases hs with
  | call hs =>
    cases hs with
    | register id limit r hr =>
      cases he
      exact hi rfl
    | refuse id limit e hr =>
      cases he
      exact hi rfl
    | _ => cases he
  | _ => cases he

theorem Step.tracks (hs : Step m t d deed d' m₁) (ht : m.registry.Tracks h)
    (hu : ∀ o id limit, d = .call o (.registering id limit) → standing id h = .unknown) :
    m₁.registry.Tracks (h ++ [deed]) := by
  -- what has been collected is not known any longer
  have htaken : ∀ id i reply, (m.registry.settled.erase id).get? i = some reply →
      m.registry.settled.get? i = some reply := by
    intro id i reply hi
    rw [Table.get?_erase] at hi
    split at hi
    · cases hi
    · exact hi
  cases hs with
  | call hs =>
    cases hs with
    | register id limit r hr => exact ht.register hr (hu _ id limit rfl) t
    | giveUp id e => exact ht.abandon t id
    | take id limit reply hg => exact ht.neutral ⟨fun _ => rfl, fun _ => rfl, rfl⟩ rfl rfl (htaken id)
    | expire id hp => exact ht.expire t id true
    | outrun id hp => exact ht.expire t id false
    | collect id reply hg => exact ht.neutral ⟨fun _ => rfl, fun _ => rfl, rfl⟩ rfl rfl (htaken id)
    | _ => exact ht.neutral ⟨fun _ => rfl, fun _ => rfl, rfl⟩ rfl rfl fun _ _ hi => hi
  | cancel id reason => exact ht.cancel t id reason _
  | deliver id reply => exact ht.fulfill t id reply
  | fail reason isWriter => exact ht.close t reason
  | _ => exact ht.neutral ⟨fun _ => rfl, fun _ => rfl, rfl⟩ rfl rfl fun _ _ hi => hi

theorem Step.holds (hs : Step m t d deed d' m₁) (ht : m.registry.Tracks h)
    (hu : ∀ o id limit, d = .call o (.registering id limit) → standing id h = .unknown)
    (hi : d.id? ≠ some i) (hh : m.registry.Holds h i) : m₁.registry.Holds (h ++ [deed]) i := by
  cases hs with
  | @call o s _ _ _ hs =>
    have hne : ∀ id, s.id? = some id → i ≠ id := by
      rintro id hid rfl
      exact hi hid
    cases hs with
    | register id limit r hr => exact Registry.Holds.register hr (hu _ id limit rfl) t (.inr hh)
    | giveUp id e => exact hh.abandon t (hne id rfl)
    | take id limit reply hg =>
      refine hh.neutral ⟨fun _ => rfl, fun _ => rfl, rfl⟩ ?_
      exact (Table.get?_erase i id _).trans (if_neg (hne id rfl))
    | expire id hp => exact hh.expire t (hne id rfl) true
    | outrun id hp => exact hh.expire t (hne id rfl) false
    | collect id reply hg =>
      refine hh.neutral ⟨fun _ => rfl, fun _ => rfl, rfl⟩ ?_
      exact (Table.get?_erase i id _).trans (if_neg (hne id rfl))
    | _ => exact hh.neutral ⟨fun _ => rfl, fun _ => rfl, rfl⟩ rfl
  | cancel id reason => exact hh.cancel ht t id reason _
  | deliver id reply => exact hh.fulfill ht t id reply
  | fail reason isWriter => exact hh.close ht t reason
  | _ => exact hh.neutral ⟨fun _ => rfl, fun _ => rfl, rfl⟩ rfl

theorem Step.numbers (hs : Step m t d deed d' m₁) :
    (deed.number? = none ∧ m₁.nextId = m.nextId) ∨
      (∃ o, d = .call o .numbering) ∧ deed.number? = some (t, m.nextId) ∧ m₁.nextId = m.nextId + 1 := by
  cases hs with
  | call hs =>
    cases hs with
    | number => exact .inr ⟨⟨_, rfl⟩, rfl, rfl⟩
    | _ => exact .inl ⟨rfl, rfl⟩
  | _ => exact .inl ⟨rfl, rfl⟩

end

end Duty

end Liaison
