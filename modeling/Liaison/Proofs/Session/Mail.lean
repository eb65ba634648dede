import Liaison.Proofs.Session.Tickets
import Liaison.Proofs.Session.Verdict

/-!
# Mail

The frames that were handed in, and the receipts for them. Whatever the writer does with the frame of a
request, the receipt tells its caller what became of it.
-/

namespace Liaison

abbrev Duties := TaskId → Option Duty

namespace Duty

def ticket? : Duty → Option Nat
  | call _ (.sent _ _ ticket) => some ticket
  | notified ticket => some ticket
  | _ => none

/-- Is this the frame that the task has handed in? All that is known of a notification is that it is no
request. -/
def Labels (frame : Json) : Duty → Prop
  | call o (.sent id _ _) => frame = o.frame id
  | _ => requestId? frame = none

/-- The outbox with what the writer has in hand: a frame still has to be written, and a receipt is given. -/
def putBack : Option Duty → Outbox → Outbox
  | some (holding frame ticket), o => { o with errands := .send frame ticket :: o.errands }
  | some (telling ticket result), o => o.receipt ticket (receiptFor result)
  | _, o => o

end Duty

def Duties.tickets (duties : Duties) (t : TaskId) : Option Nat :=
  (duties t).bind Duty.ticket?

theorem Duties.tickets_update (duties : Duties) (t : TaskId) (d : Duty) :
    Duties.tickets (Function.update duties t (some d)) = Function.update duties.tickets t d.ticket? := by
  funext u
  by_cases e : u = t
  · rw [tickets, e, Function.update_self, Function.update_self]
    rfl
  · rw [tickets, Function.update_of_ne e, Function.update_of_ne e]
    rfl

structure Mail (o : Outbox) (h : History) (duties : Duties) : Prop where
  ticketed : Ticketed o duties.tickets
  labelled : ∀ t d k frame, duties t = some d → d.ticket? = some k → o.waiting? k = some frame → d.Labels frame
  mailed : ∀ t order id limit k, duties t = some (.call order (.sent id limit k)) →
    (o.waiting? k ≠ none ∧ fate id h = .dropped) ∨ o.receipts.get? k = some (fate id h)

namespace Mail

variable {o : Outbox} {h : History} {duties : Duties} {task : TaskId} {k : Nat} {d : Duty} {deed : Deed}

theorem concat (hm : Mail o h duties) (hw : deed.write? = none) : Mail o (h ++ [deed]) duties := by
  have hf : ∀ id, fate id (h ++ [deed]) = fate id h := fun id =>
    fate_concat fun result hr => by rw [hw] at hr; cases hr
  refine ⟨hm.ticketed, hm.labelled, ?_⟩
  intro t order id limit k ht
  rw [hf]
  exact hm.mailed t order id limit k ht

theorem update (hm : Mail o h duties) (ht : duties.tickets task = none) (hd : d.ticket? = none) :
    Mail o h (Function.update duties task (some d)) := by
  have hsame : Duties.tickets (Function.update duties task (some d)) = duties.tickets := by
    rw [Duties.tickets_update, hd, ← ht, Function.update_eq_self]
  refine ⟨?_, ?_, ?_⟩
  · rw [hsame]
    exact hm.ticketed
  · intro t e k frame he hk
    by_cases e' : t = task
    · rw [e', Function.update_self] at he
      cases he
      rw [hd] at hk
      cases hk
    · rw [Function.update_of_ne e'] at he
      exact hm.labelled t e k frame he hk
  · intro t order id limit k he
    by_cases e' : t = task
    · rw [e', Function.update_self] at he
      cases he
      cases hd
    · rw [Function.update_of_ne e'] at he
      exact hm.mailed t order id limit k he

theorem congr (hm : Mail o h duties) {o' : Outbox} (hw : ∀ k, o'.waiting? k = o.waiting? k)
    (he : o'.errands.filterMap Outbox.ticketOf? = o.errands.filterMap Outbox.ticketOf?)
    (hr : ∀ k, o'.receipts.get? k = o.receipts.get? k) (hn : o'.nextTicket = o.nextTicket) : Mail o' h duties := by
  refine ⟨hm.ticketed.congr he hr hn, ?_, ?_⟩
  · intro t d k frame hd hk hf
    rw [hw] at hf
    exact hm.labelled t d k frame hd hk hf
  · intro t order id limit k ht
    rw [hw, hr]
    exact hm.mailed t order id limit k ht

theorem send (hm : Mail o h duties) (ht : duties.tickets task = none) {frame : Json}
    (hd : d.ticket? = some o.nextTicket) (hl : d.Labels frame)
    (hf : ∀ order id limit k, d = .call order (.sent id limit k) → fate id h = .dropped) :
    Mail { o with errands := o.errands ++ [.send frame o.nextTicket], nextTicket := o.nextTicket + 1 } h
      (Function.update duties task (some d)) := by
  have hself : Outbox.waiting?
      { o with errands := o.errands ++ [.send frame o.nextTicket], nextTicket := o.nextTicket + 1 } o.nextTicket =
        some frame := by
    rw [Outbox.waiting?_send, hm.ticketed.waiting_next, Option.none_or, if_pos rfl]
  have hother : ∀ t k, duties.tickets t = some k → Outbox.waiting?
      { o with errands := o.errands ++ [.send frame o.nextTicket], nextTicket := o.nextTicket + 1 } k =
        o.waiting? k := by
    intro t k hk
    rw [Outbox.waiting?_send, if_neg (Nat.ne_of_gt (hm.ticketed.ticket_lt t k hk)), Option.or_none]
  refine ⟨?_, ?_, ?_⟩
  · rw [Duties.tickets_update, hd]
    exact hm.ticketed.send ht frame
  · intro t e k frame' he hk hw
    by_cases e' : t = task
    · rw [e', Function.update_self] at he
      cases he
      obtain rfl := Option.some.inj (hd.symm.trans hk)
      obtain rfl := Option.some.inj (hself.symm.trans hw)
      exact hl
    · rw [Function.update_of_ne e'] at he
      have hk' : duties.tickets t = some k := by rw [Duties.tickets, he]; exact hk
      rw [hother t k hk'] at hw
      exact hm.labelled t e k frame' he hk hw
  · intro t order id limit k he
    by_cases e' : t = task
    · rw [e', Function.update_self] at he
      cases he
      obtain rfl := Option.some.inj hd
      refine .inl ⟨?_, hf order id limit _ rfl⟩
      rw [hself]
      exact Option.some_ne_none _
    · rw [Function.update_of_ne e'] at he
      have hk' : duties.tickets t = some k := by rw [Duties.tickets, he]; rfl
      rw [hother t k hk']
      exact hm.mailed t order id limit k he

theorem hear (hm : Mail o h duties) (ht : duties.tickets task = some k) (hr : o.receipts.get? k ≠ none)
    (hd : d.ticket? = none) :
    Mail { o with receipts := o.receipts.erase k } h (Function.update duties task (some d)) := by
  refine ⟨?_, ?_, ?_⟩
  · rw [Duties.tickets_update, hd]
    exact hm.ticketed.hear ht hr
  · intro t e k' frame he hk hw
    by_cases e' : t = task
    · rw [e', Function.update_self] at he
      cases he
      rw [hd] at hk
      cases hk
    · rw [Function.update_of_ne e'] at he
      exact hm.labelled t e k' frame he hk hw
  · intro t order id limit k' he
    by_cases e' : t = task
    · rw [e', Function.update_self] at he
      cases he
      cases hd
    · rw [Function.update_of_ne e'] at he
      have hk' : duties.tickets t = some k' := by rw [Duties.tickets, he]; rfl
      have hne : k' ≠ k := by
        rintro rfl
        exact e' (hm.ticketed.ticket_inj t task k' hk' ht)
      rw [Table.get?_erase, if_neg hne]
      exact hm.mailed t order id limit k' he

theorem settle (hm : Mail o h duties) {frame : Json} (hk : o.waiting? k = some frame) {result : Except String Unit}
    (hw : deed.write? = (requestId? frame).map (·, result))
    (hid : ∀ t order id limit k, duties t = some (.call order (.sent id limit k)) → id < Route.idBound)
    (hinj : ∀ t t' order order' id limit limit' k k', duties t = some (.call order (.sent id limit k)) →
      duties t' = some (.call order' (.sent id limit' k')) → t = t') :
    Mail (o.settle k (Duty.receiptFor result)) (h ++ [deed]) duties := by
  have hmem : k ∈ o.errands.filterMap Outbox.ticketOf? :=
    Outbox.mem_of_waiting? (by rw [hk]; exact Option.some_ne_none _)
  obtain ⟨owner, howner⟩ := hm.ticketed.owner k hmem
  obtain ⟨d, hd, hdk⟩ := Option.bind_eq_some_iff.mp howner
  have hl := hm.labelled owner d k frame hd hdk hk
  refine ⟨hm.ticketed.settle hmem _, ?_, ?_⟩
  · intro t e k' frame' he hk' hf
    rw [Outbox.waiting?_settle] at hf
    split at hf
    · cases hf
    · exact hm.labelled t e k' frame' he hk' hf
  · intro t order id limit k' he
    have hk' : duties.tickets t = some k' := by rw [Duties.tickets, he]; rfl
    by_cases e : t = owner
    · subst e
      obtain rfl := Option.some.inj (howner.symm.trans hk')
      obtain rfl := Option.some.inj (hd.symm.trans he)
      rw [hl, requestId?_frame order (hid t order id limit k he)] at hw
      rcases hm.mailed t order id limit k he with ⟨-, hf⟩ | hr
      · refine .inr ?_
        rw [Outbox.receipts_settle, if_pos rfl, fate_concat_of_write hf hw]
      · exact absurd hmem (hm.ticketed.settled k (by rw [hr]; exact Option.some_ne_none _))
    · have hne : k' ≠ k := by
        rintro rfl
        exact e (hm.ticketed.ticket_inj t owner k' hk' howner)
      -- the frame is no request, or the request of another call
      have hother : ∀ r, deed.write? ≠ some (id, r) := by
        intro r hr
        rw [hw] at hr
        obtain ⟨i, hi, he'⟩ := Option.map_eq_some_iff.mp hr
        cases he'
        cases d with
        | call order' s =>
          cases s with
          | sent i limit' k₀ =>
            rw [hl, requestId?_frame order' (hid owner order' i limit' k₀ hd)] at hi
            obtain rfl := Option.some.inj hi
            exact e (hinj t owner _ _ _ _ _ _ _ he hd)
          | _ => cases hdk
        | notified k₀ =>
          rw [hl] at hi
          cases hi
        | _ => cases hdk
      rw [Outbox.waiting?_settle, if_neg hne, Outbox.receipts_settle, if_neg hne, fate_concat hother]
      exact hm.mailed t order id limit k' he

theorem stop (hm : Mail o h duties) : Mail o.stop h duties := by
  refine ⟨hm.ticketed.stop, fun t d k frame _ _ hw => ?_, fun t order id limit k ht => .inr ?_⟩
  · rw [Outbox.waiting?_stop] at hw
    cases hw
  rw [Outbox.receipts_stop]
  rcases hm.mailed t order id limit k ht with ⟨hw, hf⟩ | hr
  · rw [if_pos (Outbox.mem_of_waiting? hw), hf]
  · rw [if_neg (hm.ticketed.settled k (by rw [hr]; exact Option.some_ne_none _)), hr]

end Mail

end Liaison
