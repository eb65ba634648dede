import Liaison.Session.Machine
import Mathlib.Logic.Function.Basic

/-!
# Tickets

What waits to be written under a ticket belongs to one task, the one that waits for the receipt. A ticket is
given once, and there is no receipt for what still waits.
-/

namespace Liaison

namespace Outbox

/-- The frame of an errand, if it has the given ticket. -/
def frameOf? (ticket : Nat) : Errand → Option Json
  | .send frame t => if t = ticket then some frame else none
  | .close => none

def ticketOf? : Errand → Option Nat
  | .send _ ticket => some ticket
  | .close => none

def waiting? (o : Outbox) (ticket : Nat) : Option Json :=
  o.errands.findSome? (frameOf? ticket)

def settle (o : Outbox) (ticket : Nat) (r : Receipt) : Outbox :=
  { o.receipt ticket r with errands := o.errands.filter fun e => (frameOf? ticket e).isNone }

@[simp] theorem frameOf?_send (ticket n : Nat) (frame : Json) :
    frameOf? ticket (.send frame n) = if n = ticket then some frame else none := rfl

@[simp] theorem frameOf?_close (ticket : Nat) : frameOf? ticket .close = none := rfl

@[simp] theorem ticketOf?_send (frame : Json) (n : Nat) : ticketOf? (.send frame n) = some n := rfl

@[simp] theorem ticketOf?_close : ticketOf? .close = none := rfl

theorem waiting?_send (o : Outbox) (frame : Json) (n ticket : Nat) :
    waiting? { o with errands := o.errands ++ [.send frame n], nextTicket := n + 1 } ticket =
      (o.waiting? ticket).or (if n = ticket then some frame else none) := by
  simp [waiting?, List.findSome?_append]

theorem waiting?_settle (o : Outbox) (ticket k : Nat) (r : Receipt) :
    (o.settle ticket r).waiting? k = if k = ticket then none else o.waiting? k := by
  have key : ∀ errands : List Errand,
      (errands.filter fun e => (frameOf? ticket e).isNone).findSome? (frameOf? k) =
        if k = ticket then none else errands.findSome? (frameOf? k) := by
    intro errands
    induction errands with
    | nil => simp
    | cons e errands ih =>
      rw [List.filter_cons, List.findSome?_cons]
      cases e with
      | close => simp [List.findSome?_cons, ih]
      | send frame n =>
        by_cases hn : n = ticket
        · by_cases hk : k = ticket
          · simp [hn, hk, hk ▸ ih]
          · simp [hn, hk, Ne.symm hk, ih]
        · by_cases hk : n = k
          · simp [hk, hk ▸ hn]
          · simp [hn, hk, ih]
  exact key o.errands

theorem receipts_settle (o : Outbox) (ticket k : Nat) (r : Receipt) :
    (o.settle ticket r).receipts.get? k = if k = ticket then some r else o.receipts.get? k :=
  Table.get?_insert k ticket r o.receipts

theorem settle_head {o : Outbox} {frame : Json} {ticket : Nat} {errands : List Errand}
    (h : ticket ∉ errands.filterMap ticketOf?) (r : Receipt) :
    { o with errands := .send frame ticket :: errands }.settle ticket r =
      { o with errands := errands }.receipt ticket r := by
  have hkept : (errands.filter fun e => (frameOf? ticket e).isNone) = errands := by
    rw [List.filter_eq_self]
    intro e he
    cases e with
    | close => rfl
    | send frame n =>
      have hn : n ≠ ticket := by
        rintro rfl
        exact h (List.mem_filterMap.mpr ⟨_, he, rfl⟩)
      simp [hn]
  have herrands : (Errand.send frame ticket :: errands).filter (fun e => (frameOf? ticket e).isNone) = errands := by
    rw [List.filter_cons, hkept]
    simp
  rw [settle, herrands]
  rfl

theorem receipts_stop (o : Outbox) (k : Nat) :
    o.stop.receipts.get? k =
      if k ∈ o.errands.filterMap ticketOf? then some .dropped else o.receipts.get? k := by
  have key : ∀ (errands : List Errand) (receipts : Table Nat Receipt),
      (errands.foldl drop receipts).get? k =
        if k ∈ errands.filterMap ticketOf? then some .dropped else receipts.get? k := by
    intro errands
    induction errands with
    | nil => intro receipts; simp
    | cons e errands ih =>
      intro receipts
      rw [List.foldl_cons, ih]
      cases e with
      | close => simp [drop]
      | send frame n =>
        by_cases hk : k = n
        · simp [drop, hk]
        · simp [drop, hk]
  exact key o.errands o.receipts

theorem waiting?_stop (o : Outbox) (k : Nat) : o.stop.waiting? k = none := rfl

theorem waiting?_of_not_mem {o : Outbox} {k : Nat} (h : k ∉ o.errands.filterMap ticketOf?) :
    o.waiting? k = none := by
  rw [waiting?, List.findSome?_eq_none_iff]
  intro e he
  cases e with
  | close => rfl
  | send frame n =>
    rw [frameOf?_send, if_neg]
    rintro rfl
    exact h (List.mem_filterMap.mpr ⟨_, he, rfl⟩)

theorem mem_of_waiting? {o : Outbox} {k : Nat} (h : o.waiting? k ≠ none) : k ∈ o.errands.filterMap ticketOf? := by
  by_contra hne
  exact h (waiting?_of_not_mem hne)

end Outbox

structure Ticketed (o : Outbox) (ticket : TaskId → Option Nat) : Prop where
  ticket_lt : ∀ t k, ticket t = some k → k < o.nextTicket
  ticket_inj : ∀ t t' k, ticket t = some k → ticket t' = some k → t = t'
  owner : ∀ k ∈ o.errands.filterMap Outbox.ticketOf?, ∃ t, ticket t = some k
  distinct : (o.errands.filterMap Outbox.ticketOf?).Nodup
  receipt_lt : ∀ k, o.receipts.get? k ≠ none → k < o.nextTicket
  settled : ∀ k, o.receipts.get? k ≠ none → k ∉ o.errands.filterMap Outbox.ticketOf?

namespace Ticketed

variable {o : Outbox} {ticket : TaskId → Option Nat} {task : TaskId} {k : Nat}

theorem not_mem_next (h : Ticketed o ticket) : o.nextTicket ∉ o.errands.filterMap Outbox.ticketOf? := by
  intro hm
  obtain ⟨t, ht⟩ := h.owner _ hm
  exact Nat.lt_irrefl _ (h.ticket_lt t _ ht)

theorem waiting_next (h : Ticketed o ticket) : o.waiting? o.nextTicket = none :=
  Outbox.waiting?_of_not_mem h.not_mem_next

theorem receipt_next (h : Ticketed o ticket) : o.receipts.get? o.nextTicket = none := by
  by_contra hne
  exact Nat.lt_irrefl _ (h.receipt_lt _ hne)

theorem waiting_of_receipt (h : Ticketed o ticket) (hr : o.receipts.get? k ≠ none) : o.waiting? k = none :=
  Outbox.waiting?_of_not_mem (h.settled k hr)

theorem congr (h : Ticketed o ticket) {o' : Outbox}
    (he : o'.errands.filterMap Outbox.ticketOf? = o.errands.filterMap Outbox.ticketOf?)
    (hr : ∀ k, o'.receipts.get? k = o.receipts.get? k) (hn : o'.nextTicket = o.nextTicket) :
    Ticketed o' ticket := by
  refine ⟨?_, h.ticket_inj, ?_, ?_, ?_, ?_⟩
  · rw [hn]
    exact h.ticket_lt
  · rw [he]
    exact h.owner
  · rw [he]
    exact h.distinct
  · intro k hk
    rw [hr] at hk
    rw [hn]
    exact h.receipt_lt k hk
  · intro k hk
    rw [hr] at hk
    rw [he]
    exact h.settled k hk

theorem send (h : Ticketed o ticket) (hn : ticket task = none) (frame : Json) :
    Ticketed { o with errands := o.errands ++ [.send frame o.nextTicket], nextTicket := o.nextTicket + 1 }
      (Function.update ticket task (some o.nextTicket)) := by
  -- a ticket is either the new one, and then it is the task's, or an old one of another task
  have hcases : ∀ t k, Function.update ticket task (some o.nextTicket) t = some k →
      (t = task ∧ k = o.nextTicket) ∨ (ticket t = some k ∧ k < o.nextTicket) := by
    intro t k hk
    by_cases e : t = task
    · rw [e, Function.update_self] at hk
      exact .inl ⟨e, (Option.some.inj hk).symm⟩
    · rw [Function.update_of_ne e] at hk
      exact .inr ⟨hk, h.ticket_lt t k hk⟩
  have herrands : (o.errands ++ [Errand.send frame o.nextTicket]).filterMap Outbox.ticketOf? =
      o.errands.filterMap Outbox.ticketOf? ++ [o.nextTicket] := by
    simp [List.filterMap_append]
  refine ⟨?_, ?_, ?_, ?_, ?_, ?_⟩
  · intro t k hk
    rcases hcases t k hk with ⟨-, rfl⟩ | ⟨-, hlt⟩
    · exact Nat.lt_succ_self _
    · exact Nat.lt_succ_of_lt hlt
  · intro t t' k hk hk'
    rcases hcases t k hk with ⟨rfl, rfl⟩ | ⟨hk₀, hlt⟩
    · rcases hcases t' _ hk' with ⟨rfl, -⟩ | ⟨-, hlt⟩
      · rfl
      · exact absurd hlt (Nat.lt_irrefl _)
    · rcases hcases t' k hk' with ⟨-, rfl⟩ | ⟨hk₀', -⟩
      · exact absurd hlt (Nat.lt_irrefl _)
      · exact h.ticket_inj t t' k hk₀ hk₀'
  · intro k hk
    rw [herrands, List.mem_append, List.mem_singleton] at hk
    rcases hk with hk | rfl
    · obtain ⟨t, ht⟩ := h.owner k hk
      refine ⟨t, ?_⟩
      rw [Function.update_of_ne, ht]
      rintro rfl
      rw [hn] at ht
      cases ht
    · exact ⟨task, Function.update_self ..⟩
  · rw [herrands]
    refine List.nodup_append.mpr ⟨h.distinct, List.pairwise_singleton _ _, ?_⟩
    intro a ha b hb e
    rw [List.mem_singleton.mp hb] at e
    exact h.not_mem_next (e ▸ ha)
  · intro k hr
    exact Nat.lt_succ_of_lt (h.receipt_lt k hr)
  · intro k hr hk
    rw [herrands, List.mem_append, List.mem_singleton] at hk
    rcases hk with hk | rfl
    · exact h.settled k hr hk
    · exact hr h.receipt_next

theorem hear (h : Ticketed o ticket) (ht : ticket task = some k) (hr : o.receipts.get? k ≠ none) :
    Ticketed { o with receipts := o.receipts.erase k } (Function.update ticket task none) := by
  have hold : ∀ t k, Function.update ticket task none t = some k → ticket t = some k := by
    intro t k hk
    by_cases e : t = task
    · rw [e, Function.update_self] at hk
      cases hk
    · rwa [Function.update_of_ne e] at hk
  have hkept : ∀ n, (o.receipts.erase k).get? n ≠ none → o.receipts.get? n ≠ none := by
    intro n hn
    rw [Table.get?_erase] at hn
    split at hn
    · exact absurd rfl hn
    · exact hn
  refine ⟨fun t n hn => h.ticket_lt t n (hold t n hn), fun t t' n hn hn' =>
    h.ticket_inj t t' n (hold t n hn) (hold t' n hn'), ?_, h.distinct,
    fun n hn => h.receipt_lt n (hkept n hn), fun n hn => h.settled n (hkept n hn)⟩
  intro n hn
  obtain ⟨t, htn⟩ := h.owner n hn
  refine ⟨t, ?_⟩
  rw [Function.update_of_ne, htn]
  rintro rfl
  obtain rfl := Option.some.inj (ht.symm.trans htn)
  exact h.settled _ hr hn

theorem settle (h : Ticketed o ticket) (hk : k ∈ o.errands.filterMap Outbox.ticketOf?) (r : Receipt) :
    Ticketed (o.settle k r) ticket := by
  obtain ⟨t, ht⟩ := h.owner k hk
  have hlt : k < o.nextTicket := h.ticket_lt t k ht
  have hsub : (o.errands.filter fun e => (Outbox.frameOf? k e).isNone).Sublist o.errands := List.filter_sublist
  have hmem : ∀ n ∈ (o.errands.filter fun e => (Outbox.frameOf? k e).isNone).filterMap Outbox.ticketOf?,
      n ≠ k ∧ n ∈ o.errands.filterMap Outbox.ticketOf? := by
    intro n hn
    obtain ⟨e, he, hen⟩ := List.mem_filterMap.mp hn
    rw [List.mem_filter] at he
    refine ⟨?_, List.mem_filterMap.mpr ⟨e, he.1, hen⟩⟩
    cases e with
    | close => cases hen
    | send frame i =>
      obtain rfl := Option.some.inj hen
      rintro rfl
      simp at he
  refine ⟨h.ticket_lt, h.ticket_inj, fun n hn => h.owner n (hmem n hn).2, h.distinct.sublist (hsub.filterMap _),
    ?_, ?_⟩
  · intro n hn
    rw [Outbox.receipts_settle] at hn
    split at hn
    · rename_i e
      exact e ▸ hlt
    · exact h.receipt_lt n hn
  · intro n hn hw
    obtain ⟨hne, hw⟩ := hmem n hw
    rw [Outbox.receipts_settle, if_neg hne] at hn
    exact h.settled n hn hw

theorem stop (h : Ticketed o ticket) : Ticketed o.stop ticket := by
  refine ⟨h.ticket_lt, h.ticket_inj, fun n hn => absurd hn List.not_mem_nil, List.nodup_nil, ?_,
    fun _ _ => List.not_mem_nil⟩
  intro n hn
  rw [Outbox.receipts_stop] at hn
  split at hn
  · rename_i hm
    obtain ⟨t, ht⟩ := h.owner n hm
    exact h.ticket_lt t n ht
  · exact h.receipt_lt n hn

end Ticketed

end Liaison
