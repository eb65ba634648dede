import Liaison.Proofs.Session.Mail
import Liaison.Proofs.Session.Steps

/-!
# Delivery

What the steps of the tasks do to the mail. The writer's hand is always put back, so that taking an errand
and giving a receipt change nothing, and writing settles what waits.
-/

namespace Liaison

namespace Duty

/-! ## The writer's hand -/

theorem nextTicket_putBack (hand : Option Duty) (o : Outbox) : (putBack hand o).nextTicket = o.nextTicket := by
  rcases hand with _ | d
  · rfl
  · cases d <;> rfl

theorem putBack_append (hand : Option Duty) (o : Outbox) (errands : List Errand) (n : Nat) :
    putBack hand { o with errands := o.errands ++ errands, nextTicket := n } =
      { putBack hand o with errands := (putBack hand o).errands ++ errands, nextTicket := n } := by
  rcases hand with _ | d
  · rfl
  · cases d <;> rfl

theorem receipts_putBack_erase {hand : Option Duty} {o : Outbox} {k : Nat}
    (hk : ∀ ticket result, hand = some (telling ticket result) → ticket ≠ k) (i : Nat) :
    (putBack hand { o with receipts := o.receipts.erase k }).receipts.get? i =
      ((putBack hand o).receipts.erase k).get? i := by
  rcases hand with _ | d
  · rfl
  · cases d with
    | telling ticket result =>
      have hne := hk ticket result rfl
      simp only [putBack, Outbox.receipt, Table.get?_insert, Table.get?_erase]
      by_cases hi : i = k
      · rw [if_neg (hi ▸ Ne.symm hne), if_pos hi, if_pos hi]
      · rw [if_neg hi, if_neg hi]
    | _ => rfl

theorem errands_putBack_erase (hand : Option Duty) (o : Outbox) (k : Nat) :
    (putBack hand { o with receipts := o.receipts.erase k }).errands = (putBack hand o).errands := by
  rcases hand with _ | d
  · rfl
  · cases d <;> rfl

theorem get?_putBack {hand : Option Duty} {o : Outbox} {k : Nat} {receipt : Receipt}
    (hr : o.receipts.get? k = some receipt)
    (hk : ∀ ticket result, hand = some (telling ticket result) → o.receipts.get? ticket = none) :
    (putBack hand o).receipts.get? k = some receipt := by
  rcases hand with _ | d
  · exact hr
  · cases d with
    | telling ticket result =>
      have hne : k ≠ ticket := by
        rintro rfl
        rw [hk k result rfl] at hr
        cases hr
      exact (Table.get?_insert k ticket _ _).trans ((if_neg hne).trans hr)
    | _ => exact hr

end Duty

/-! ## Steps -/

theorem Mail.close {o : Outbox} {h : History} {duties : Duties} (hm : Mail o h duties) :
    Mail { o with errands := o.errands ++ [.close] } h duties := by
  refine hm.congr ?_ ?_ (fun _ => rfl) rfl
  · intro k
    simp [Outbox.waiting?, List.findSome?_append]
  · simp [List.filterMap_append]

namespace Duty

variable {m m₁ : Machine} {h : History} {duties : Duties} {t : TaskId} {d d' : Duty} {deed : Deed}

theorem mail_of_same (hm : Mail (putBack (duties 0) m.outbox) h duties) (hd : duties t = some d)
    (ht : d.ticket? = none) (ht' : d'.ticket? = none) (hw : deed.write? = none)
    (hhand : t = 0 → putBack (some d) m.outbox = m.outbox ∧ putBack (some d') m.outbox = m.outbox) :
    Mail (putBack (Function.update duties t (some d') 0) m.outbox) (h ++ [deed])
      (Function.update duties t (some d')) := by
  have hsame : putBack (Function.update duties t (some d') 0) m.outbox = putBack (duties 0) m.outbox := by
    by_cases e : t = 0
    · subst e
      rw [Function.update_self, hd, (hhand rfl).1, (hhand rfl).2]
    · rw [Function.update_of_ne (Ne.symm e)]
  rw [hsame]
  have hticket : duties.tickets t = none := by rw [Duties.tickets, hd]; exact ht
  exact (hm.update hticket ht').concat hw

theorem mail_of_send (hm : Mail (putBack (duties 0) m.outbox) h duties) (hd : duties t = some d) (h0 : t ≠ 0)
    (ht : d.ticket? = none) {frame : Json} (ht' : d'.ticket? = some m.outbox.nextTicket) (hl : d'.Labels frame)
    (hf : ∀ order id limit k, d' = .call order (.sent id limit k) → fate id h = .dropped) (hw : deed.write? = none) :
    Mail (putBack (Function.update duties t (some d') 0)
        { m.outbox with
          errands := m.outbox.errands ++ [.send frame m.outbox.nextTicket]
          nextTicket := m.outbox.nextTicket + 1 })
      (h ++ [deed]) (Function.update duties t (some d')) := by
  have hticket : duties.tickets t = none := by rw [Duties.tickets, hd]; exact ht
  rw [Function.update_of_ne (Ne.symm h0), putBack_append]
  rw [← nextTicket_putBack (duties 0) m.outbox] at ht' ⊢
  exact (hm.send hticket ht' hl hf).concat hw

theorem mail_of_hear (hm : Mail (putBack (duties 0) m.outbox) h duties) (hd : duties t = some d) (h0 : t ≠ 0)
    {k : Nat} (ht : d.ticket? = some k) (ht' : d'.ticket? = none) {receipt : Receipt}
    (hr : m.outbox.receipts.get? k = some receipt)
    (huntold : ∀ ticket result, duties 0 = some (telling ticket result) → m.outbox.receipts.get? ticket = none)
    (hw : deed.write? = none) :
    Mail (putBack (Function.update duties t (some d') 0)
        { m.outbox with receipts := m.outbox.receipts.erase k })
      (h ++ [deed]) (Function.update duties t (some d')) := by
  have hticket : duties.tickets t = some k := by rw [Duties.tickets, hd]; exact ht
  have hvirtual := get?_putBack hr huntold
  have hne : ∀ ticket result, duties 0 = some (telling ticket result) → ticket ≠ k := by
    rintro ticket result h0 rfl
    rw [huntold ticket result h0] at hr
    cases hr
  rw [Function.update_of_ne (Ne.symm h0)]
  have hheard := (hm.hear hticket (by rw [hvirtual]; exact Option.some_ne_none _) ht').concat hw
  refine hheard.congr ?_ ?_ (receipts_putBack_erase hne) ?_
  · intro i
    exact congrArg (List.findSome? (Outbox.frameOf? i)) (errands_putBack_erase (duties 0) m.outbox k)
  · exact congrArg (List.filterMap Outbox.ticketOf?) (errands_putBack_erase (duties 0) m.outbox k)
  · exact nextTicket_putBack (duties 0) _ |>.trans (nextTicket_putBack (duties 0) m.outbox).symm

theorem Step.mail (hs : Step m t d deed d' m₁) (hm : Mail (putBack (duties 0) m.outbox) h duties)
    (hd : duties t = some d) (hp : ∀ p, d.post? = some p → t = p) (hwriter : t = 0 → d.post? = some 0)
    (huntold : ∀ ticket result, duties 0 = some (telling ticket result) → m.outbox.receipts.get? ticket = none)
    (hf : ∀ order id limit, d = .call order (.handing id limit) → fate id h = .dropped)
    (hid : ∀ t order id limit k, duties t = some (.call order (.sent id limit k)) → id < Route.idBound)
    (hinj : ∀ t t' order order' id limit limit' k k', duties t = some (.call order (.sent id limit k)) →
      duties t' = some (.call order' (.sent id limit' k')) → t = t') :
    Mail (putBack (Function.update duties t (some d') 0) m₁.outbox) (h ++ [deed])
      (Function.update duties t (some d')) := by
  have h0 : d.post? ≠ some 0 → t ≠ 0 := fun hne e => hne (hwriter e)
  cases hs with
  | @call o s s' deed m₁ hs =>
    have ht : t ≠ 0 := h0 (Option.some_ne_none 0).symm
    cases hs with
    | hand id limit hstop =>
      refine mail_of_send hm hd ht rfl rfl rfl ?_ rfl
      intro order i l k he
      cases he
      exact hf o id limit rfl
    | hear id limit ticket receipt hr =>
      refine mail_of_hear hm hd ht rfl ?_ hr huntold rfl
      cases receipt <;> rfl
    | _ => exact mail_of_same hm hd rfl rfl rfl fun e => absurd e ht
  | hand method params hstop =>
    have ht : t ≠ 0 := h0 (Option.some_ne_none 0).symm
    refine mail_of_send hm hd ht rfl rfl (requestId?_notification method params) (fun order i l k he => ?_) rfl
    cases he
  | hear ticket receipt hr =>
    have ht : t ≠ 0 := h0 (Option.some_ne_none 0).symm
    exact mail_of_hear hm hd ht rfl rfl hr huntold rfl
  | shut =>
    have ht : t ≠ 0 := h0 (Option.some_ne_none 0).symm
    have hm' : Mail (putBack (Function.update duties t (some (ended nothing)) 0) m.outbox)
        (h ++ [⟨t, .enqueueClose, ()⟩]) (Function.update duties t (some (ended nothing))) :=
      mail_of_same hm hd rfl rfl rfl fun e => absurd e ht
    rw [Outbox.close]
    split
    · exact hm'
    · rw [putBack_append _ _ _ m.outbox.nextTicket]
      rw [← nextTicket_putBack (Function.update duties t (some (ended nothing)) 0) m.outbox]
      exact hm'.close
  | pick frame ticket errands he =>
    obtain rfl := hp 0 rfl
    have hticket : duties.tickets 0 = none := by rw [Duties.tickets, hd]; rfl
    rw [hd] at hm
    rw [Function.update_self]
    change Mail { m.outbox with errands := .send frame ticket :: errands } _ _
    rw [← he]
    exact (hm.update hticket rfl).concat rfl
  | pickClose errands he =>
    obtain rfl := hp 0 rfl
    have hticket : duties.tickets 0 = none := by rw [Duties.tickets, hd]; rfl
    rw [hd] at hm
    rw [Function.update_self]
    refine ((hm.update hticket rfl).concat rfl).congr ?_ ?_ (fun _ => rfl) rfl
    · intro k
      change List.findSome? _ errands = List.findSome? _ m.outbox.errands
      rw [he]
      rfl
    · change List.filterMap _ errands = List.filterMap _ m.outbox.errands
      rw [he]
      rfl
  | write frame ticket =>
    obtain rfl := hp 0 rfl
    have hticket : duties.tickets 0 = none := by rw [Duties.tickets, hd]; rfl
    rw [hd] at hm
    rw [Function.update_self]
    have hnot : ticket ∉ m.outbox.errands.filterMap Outbox.ticketOf? := (List.nodup_cons.mp hm.ticketed.distinct).1
    have hk : Outbox.waiting? (putBack (some (holding frame ticket)) m.outbox) ticket = some frame := by
      simp [putBack, Outbox.waiting?]
    have hhead : (putBack (some (holding frame ticket)) m.outbox).settle ticket (receiptFor (m.outlet.write frame).1) =
        m.outbox.receipt ticket (receiptFor (m.outlet.write frame).1) := Outbox.settle_head hnot _
    have hsettled : Mail (m.outbox.receipt ticket (receiptFor (m.outlet.write frame).1))
        (h ++ [⟨0, .write frame, (m.outlet.write frame).1⟩]) duties := by
      rw [← hhead]
      exact hm.settle hk rfl hid hinj
    exact hsettled.update hticket rfl
  | tell ticket result =>
    obtain rfl := hp 0 rfl
    have hticket : duties.tickets 0 = none := by rw [Duties.tickets, hd]; rfl
    rw [hd] at hm
    rw [Function.update_self]
    cases result with
    | ok _ => exact (hm.update hticket rfl).concat rfl
    | error reason => exact (hm.update hticket rfl).concat rfl
  | stop =>
    obtain rfl := hp 0 rfl
    have hticket : duties.tickets 0 = none := by rw [Duties.tickets, hd]; rfl
    rw [hd] at hm
    rw [Function.update_self]
    exact (hm.stop.update hticket rfl).concat rfl
  | read event inlet hn =>
    have ht : t ≠ 0 := h0 (by rw [post?]; decide)
    refine mail_of_same hm hd rfl ?_ rfl fun e => absurd e ht
    cases event with
    | frame v =>
      rw [onEvent]
      cases Route.ofFrame v <;> rfl
    | _ => rfl
  | terminate isWriter =>
    refine mail_of_same hm hd rfl ?_ rfl fun _ => ⟨rfl, ?_⟩
    all_goals cases isWriter <;> rfl
  | _ => exact mail_of_same hm hd rfl rfl rfl fun _ => ⟨rfl, rfl⟩

end Duty

end Liaison
