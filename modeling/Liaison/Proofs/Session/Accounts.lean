import Liaison.Proofs.Session.Writing
import Liaison.Proofs.Session.Tickets

/-!
# Accounts

Of the task that writes three accounts are kept. What it was asked to do is what it has written, what it has in hand
and what waits, in this order, and the tickets are numbered in the same order. A receipt says of a frame that it was
written just if it was. And on the wire are the bytes of what was written.
-/

namespace Liaison

/-! ## Frames and tickets -/

/-- The frames as they were handed in, if nothing was handed in before. -/
def sends (frames : List Json) : List Errand :=
  frames.zipIdx.map fun p => .send p.1 p.2

def ticketsOf (errands : List Errand) : List Nat :=
  errands.filterMap Outbox.ticketOf?

@[simp] theorem ticketsOf_nil : ticketsOf [] = [] := rfl

@[simp] theorem ticketsOf_append (first later : List Errand) :
    ticketsOf (first ++ later) = ticketsOf first ++ ticketsOf later :=
  List.filterMap_append

@[simp] theorem ticketsOf_send (frame : Json) (ticket : Nat) : ticketsOf [.send frame ticket] = [ticket] := rfl

@[simp] theorem ticketsOf_close : ticketsOf [.close] = [] := rfl

theorem ticketsOf_cons (e : Errand) (errands : List Errand) :
    ticketsOf (e :: errands) = ticketsOf [e] ++ ticketsOf errands :=
  ticketsOf_append [e] errands

theorem sends_concat (frames : List Json) (frame : Json) :
    sends (frames ++ [frame]) = sends frames ++ [.send frame frames.length] := by
  simp [sends, List.zipIdx_append]

@[simp] theorem ticketsOf_sends (frames : List Json) : ticketsOf (sends frames) = List.range frames.length := by
  induction frames using List.reverseRecOn with
  | nil => rfl
  | append_singleton frames frame ih => simp [sends_concat, ih, List.range_succ]

theorem frames_sends (frames : List Json) : (sends frames).filterMap Errand.frame? = frames := by
  induction frames using List.reverseRecOn with
  | nil => rfl
  | append_singleton frames frame ih => simp [sends_concat, ih, Errand.frame?]

theorem ne_close_of_mem_sends {frames : List Json} {e : Errand} (he : e ∈ sends frames) : e ≠ .close := by
  obtain ⟨p, -, rfl⟩ := List.mem_map.mp he
  exact Errand.noConfusion

/-! ## The queue -/

inductive Outbox.Use (o : Outbox) : (a : Action) → a.Answer → Outbox → Prop
  | handIn (frame : Json) (h : o.isStopped = false) : Use o (.enqueue frame) (some o.nextTicket)
    { o with errands := o.errands ++ [.send frame o.nextTicket], nextTicket := o.nextTicket + 1 }
  | refused (frame : Json) (h : o.isStopped = true) : Use o (.enqueue frame) none o
  | askToClose (h : o.isStopped = false) : Use o .enqueueClose () { o with errands := o.errands ++ [.close] }
  | tooLate (h : o.isStopped = true) : Use o .enqueueClose () o
  | collect {ticket : Nat} {receipt : Receipt} (h : o.receipts.get? ticket = some receipt) :
    Use o (.awaitReceipt ticket) receipt { o with receipts := o.receipts.erase ticket }
  | other {a : Action} {answer : a.Answer} (h : a.stream? ≠ some .outbox) : Use o a answer o

theorem use_perform {m m' : Machine} {t : TaskId} {a : Action} {answer : a.Answer}
    (hp : m.perform t a = some (answer, m')) (ha : a.service? ≠ some .writer) : m.outbox.Use a answer m'.outbox := by
  cases a with
  | enqueue frame =>
    simp only [Machine.perform] at hp
    split at hp
    · cases hp
    · cases hp
      rw [Outbox.send]
      split
      · rename_i hs
        exact .refused frame hs
      · rename_i hs
        exact .handIn frame (eq_false_of_ne_true hs)
  | enqueueClose =>
    simp only [Machine.perform] at hp
    split at hp
    · cases hp
    · cases hp
      simp only [Outbox.close]
      split
      · rename_i hs
        exact .tooLate hs
      · rename_i hs
        exact .askToClose (eq_false_of_ne_true hs)
  | awaitReceipt ticket =>
    obtain ⟨⟨receipt, o⟩, hc, he⟩ := Option.map_eq_some_iff.mp hp
    cases he
    obtain ⟨_, hr, he⟩ := Option.map_eq_some_iff.mp hc
    cases he
    exact .collect hr
  | nextErrand | giveReceipt _ _ | stopWriting => exact absurd rfl ha
  | _ =>
    rw [(streams_perform hp).outbox (by simp [Action.stream?])]
    exact .other (by simp [Action.stream?])

theorem Outbox.Use.isStopped {o o' : Outbox} {a : Action} {answer : a.Answer} (h : o.Use a answer o') :
    o'.isStopped = o.isStopped := by
  cases h <;> rfl

theorem take_cases {o o' : Outbox} {e : Errand} (h : o.take? = some (e, o')) :
    ∃ errands, o.errands = e :: errands ∧ o' = { o with errands := errands } := by
  rw [Outbox.take?] at h
  split at h
  · rename_i first errands herrands
    cases h
    exact ⟨errands, herrands, rfl⟩
  · cases h

theorem errand?_of_stream {t : TaskId} {a : Action} {answer : a.Answer} (ha : a.stream? ≠ some .outbox) :
    Deed.errand? ⟨t, a, answer⟩ = none := by
  cases a with
  | enqueue frame => exact absurd rfl ha
  | enqueueClose => exact absurd rfl ha
  | _ => rfl

theorem outlet_perform {m m' : Machine} {t : TaskId} {a : Action} {answer : a.Answer}
    (hp : m.perform t a = some (answer, m')) (ha : a.service? ≠ some .writer) : m'.outlet = m.outlet := by
  refine (streams_perform hp).outlet ?_
  cases a with
  | write frame => exact absurd rfl ha
  | closeOutput => exact absurd rfl ha
  | _ => simp [Action.stream?]

/-- All that was asked for was written or is in hand or waits. What is left when the task stops is dropped. -/
structure Account (asked : List Errand) (frames : List Json) (o : Outbox) (inHand : List Errand) : Prop where
  balance : ∃ dropped, asked = sends frames ++ inHand ++ o.errands ++ dropped ∧ (o.isStopped = false → dropped = [])
  emptied : o.isStopped = true → o.errands = []
  issued : ticketsOf asked = List.range o.nextTicket

namespace Account

variable {asked : List Errand} {frames : List Json} {o o' : Outbox} {inHand : List Errand} {frame : Json}
  {ticket n : Nat}

theorem use (h : Account asked frames o inHand) {t : TaskId} {a : Action} {answer : a.Answer}
    (hu : o.Use a answer o') : Account (asked ++ (Deed.errand? ⟨t, a, answer⟩).toList) frames o' inHand := by
  obtain ⟨dropped, hasked, hdropped⟩ := h.balance
  cases hu with
  | handIn frame hs =>
    rw [hdropped hs, List.append_nil] at hasked
    refine ⟨⟨[], by simp [Deed.errand?, hasked], fun _ => rfl⟩, ?_, ?_⟩
    · intro hstop
      rw [hs] at hstop
      cases hstop
    · simp [Deed.errand?, h.issued, List.range_succ]
  | refused frame hs => simpa [Deed.errand?] using h
  | askToClose hs =>
    rw [hdropped hs, List.append_nil] at hasked
    refine ⟨⟨[], by simp [Deed.errand?, hasked], fun _ => rfl⟩, ?_, ?_⟩
    · intro hstop
      rw [hs] at hstop
      cases hstop
    · simp [Deed.errand?, h.issued]
  | tooLate hs =>
    refine ⟨⟨dropped ++ [.close], by simp [Deed.errand?, hasked], ?_⟩, h.emptied, by simp [Deed.errand?, h.issued]⟩
    intro hgoes
    rw [hs] at hgoes
    cases hgoes
  | collect hr =>
    refine ⟨⟨dropped, by simpa [Deed.errand?] using hasked, hdropped⟩, h.emptied, by simp [Deed.errand?, h.issued]⟩
  | other ha =>
    rw [errand?_of_stream ha]
    simpa using h

theorem take (h : Account asked frames o []) {e : Errand} (ht : o.take? = some (e, o')) :
    Account asked frames o' [e] := by
  obtain ⟨dropped, hasked, hdropped⟩ := h.balance
  obtain ⟨errands, herrands, rfl⟩ := take_cases ht
  refine ⟨⟨dropped, by simpa [herrands] using hasked, hdropped⟩, ?_, h.issued⟩
  intro hs
  have hempty := h.emptied hs
  rw [herrands] at hempty
  cases hempty

/-- The ticket of what is in hand tells how many frames were written before. -/
theorem ticket_eq (h : Account asked frames o [.send frame ticket]) : ticket = frames.length := by
  obtain ⟨dropped, hasked, -⟩ := h.balance
  have hissued := h.issued
  have hat := congrArg (·[frames.length]?) hissued
  simp only [hasked, ticketsOf_append, ticketsOf_sends, ticketsOf_send, List.append_assoc] at hat
  rw [List.getElem?_append_right (by simp)] at hat
  simp only [List.length_range, Nat.sub_self, List.singleton_append, List.getElem?_cons_zero] at hat
  obtain ⟨_, he⟩ := List.getElem?_eq_some_iff.mp hat.symm
  rw [← he, List.getElem_range]

theorem write (h : Account asked frames o [.send frame ticket]) : Account asked (frames ++ [frame]) o [] := by
  obtain ⟨dropped, hasked, hdropped⟩ := h.balance
  refine ⟨⟨dropped, ?_, hdropped⟩, h.emptied, h.issued⟩
  rw [hasked, sends_concat, h.ticket_eq]
  simp

theorem stop (h : Account asked frames o inHand) : Account asked frames o.stop inHand := by
  obtain ⟨dropped, hasked, -⟩ := h.balance
  refine ⟨⟨o.errands ++ dropped, by simp [Outbox.stop, hasked], ?_⟩, fun _ => rfl, h.issued⟩
  intro hs
  cases hs

theorem nodup (h : Account asked frames o inHand) :
    (List.range frames.length ++ ticketsOf inHand ++ ticketsOf o.errands).Nodup := by
  obtain ⟨dropped, hasked, -⟩ := h.balance
  have hall : (ticketsOf asked).Nodup := h.issued ▸ List.nodup_range
  rw [hasked, ticketsOf_append, ticketsOf_append, ticketsOf_append, ticketsOf_sends] at hall
  exact (List.nodup_append.mp hall).1

theorem le_of_waits (h : Account asked frames o inHand) {n : Nat} (hn : n ∈ ticketsOf o.errands) :
    frames.length ≤ n := by
  have hdisjoint := (List.nodup_append.mp h.nodup).2.2 n
  by_contra hlt
  exact hdisjoint (List.mem_append_left _ (List.mem_range.mpr (by omega))) n hn rfl

theorem not_waits (h : Account asked frames o inHand) {n : Nat} (hn : n ∈ ticketsOf inHand) : n ∉ ticketsOf o.errands :=
  fun hw => (List.nodup_append.mp h.nodup).2.2 n (List.mem_append_right _ hn) n hw rfl

theorem lt_nextTicket (h : Account asked frames o inHand) {n : Nat}
    (hn : n < frames.length ∨ n ∈ ticketsOf inHand ∨ n ∈ ticketsOf o.errands) : n < o.nextTicket := by
  obtain ⟨dropped, hasked, -⟩ := h.balance
  rw [← List.mem_range, ← h.issued, hasked]
  simp only [ticketsOf_append, ticketsOf_sends, List.mem_append, List.mem_range]
  tauto

theorem sends_isPrefix (h : Account asked frames o inHand) : sends frames ++ inHand <+: asked := by
  obtain ⟨dropped, hasked, -⟩ := h.balance
  rw [hasked, List.append_assoc (sends frames ++ inHand)]
  exact List.prefix_append _ _

theorem mem_sends_iff (h : Account asked frames o inHand) (hm : .send frame n ∈ asked) :
    .send frame n ∈ sends frames ↔ n < frames.length := by
  have hticket : ∀ {errands : List Errand}, .send frame n ∈ errands → n ∈ ticketsOf errands :=
    fun hm => List.mem_filterMap.mpr ⟨_, hm, rfl⟩
  constructor
  · intro hs
    have hrange := hticket hs
    rwa [ticketsOf_sends, List.mem_range] at hrange
  · intro hlt
    obtain ⟨rest, rfl⟩ := (List.prefix_append _ _).trans h.sends_isPrefix
    rcases List.mem_append.mp hm with hm | hm
    · exact hm
    · have hnodup : (ticketsOf (sends frames ++ rest)).Nodup := h.issued ▸ List.nodup_range
      rw [ticketsOf_append, ticketsOf_sends] at hnodup
      exact absurd rfl ((List.nodup_append.mp hnodup).2.2 n (List.mem_range.mpr hlt) n (hticket hm))

/-- What comes after a request to close, or after the frame that is next, is not written. -/
theorem le_of_later (h : Account asked frames o inHand) {first later : List Errand} {e : Errand}
    (ha : asked = first ++ e :: later) (he : e = .close ∨ ∃ frame, e = .send frame frames.length)
    (hn : n ∈ ticketsOf later) : frames.length ≤ n := by
  have hsorted : (ticketsOf asked).Pairwise (· < ·) := h.issued ▸ List.pairwise_lt_range
  rw [ha, ticketsOf_append, ticketsOf_cons, List.pairwise_append, List.pairwise_append] at hsorted
  obtain ⟨-, ⟨-, -, hnext⟩, hbefore⟩ := hsorted
  rcases he with rfl | ⟨frame, rfl⟩
  · have hrun : sends frames <+: first := by
      have hpre := (List.prefix_append _ _).trans h.sends_isPrefix
      rw [ha] at hpre
      rcases List.prefix_or_prefix_of_prefix hpre (List.prefix_append _ _) with hpre | ⟨rest, hrest⟩
      · exact hpre
      · rw [← hrest, List.prefix_append_right_inj] at hpre
        cases rest with
        | nil => exact ⟨[], by rw [← hrest, List.append_nil, List.append_nil]⟩
        | cons e' rest =>
          obtain ⟨rfl, -⟩ := List.cons_prefix_cons.mp hpre
          have hclose : .close ∈ sends frames := by
            rw [← hrest]
            simp
          exact absurd rfl (ne_close_of_mem_sends hclose)
    by_contra hlt
    have hmem : n ∈ ticketsOf first := by
      apply (hrun.filterMap Outbox.ticketOf?).subset
      change n ∈ ticketsOf (sends frames)
      rw [ticketsOf_sends, List.mem_range]
      omega
    exact Nat.lt_irrefl n (hbefore n hmem n (List.mem_append_right _ hn))
  · exact Nat.le_of_lt (hnext _ (List.mem_singleton_self _) n hn)

theorem congr (h : Account asked frames o inHand) (he : o'.errands = o.errands) (hn : o'.nextTicket = o.nextTicket)
    (hs : o'.isStopped = o.isStopped) : Account asked frames o' inHand := by
  refine ⟨?_, ?_, ?_⟩
  · rw [he, hs]
    exact h.balance
  · rw [he, hs]
    exact h.emptied
  · rw [hn]
    exact h.issued

theorem concat {h : History} {d : Deed} (ha : Account (entrusted h) frames o inHand) (hd : d.errand? = none) :
    Account (entrusted (h ++ [d])) frames o inHand := by
  rwa [entrusted_concat, hd, Option.toList_none, List.append_nil]

end Account

/-! ## Receipts -/

def Tells (h : History) (o : Outbox) (ticket : Nat) (receipt : Receipt) : Prop :=
  o.receipts.get? ticket = some receipt ∨ ∃ t, ⟨t, .awaitReceipt ticket, receipt⟩ ∈ h

section

variable {h : History} {o o' : Outbox} {d : Deed} {n ticket : Nat} {r receipt : Receipt}

theorem mem_concat_of_ne {t : TaskId} {a : Action} {answer : a.Answer} (hd : d.action ≠ a) :
    ⟨t, a, answer⟩ ∈ h ++ [d] ↔ ⟨t, a, answer⟩ ∈ h := by
  rw [List.mem_append, List.mem_singleton]
  refine or_iff_left ?_
  rintro rfl
  exact hd rfl

theorem tells_concat (hd : ∀ ticket, d.action ≠ .awaitReceipt ticket) : Tells (h ++ [d]) o n r ↔ Tells h o n r := by
  simp only [Tells, mem_concat_of_ne (hd n)]

theorem tells_use {t : TaskId} {a : Action} {answer : a.Answer} (hu : o.Use a answer o') :
    Tells (h ++ [⟨t, a, answer⟩]) o' n r ↔ Tells h o n r := by
  cases hu with
  | @collect ticket receipt hr =>
    simp only [Tells, List.mem_append, List.mem_singleton, Table.get?_erase]
    by_cases hn : n = ticket
    · subst hn
      constructor
      · rintro (he | ⟨u, hm | hm⟩)
        · simp at he
        · exact .inr ⟨u, hm⟩
        · cases hm
          exact .inl hr
      · rintro (he | ⟨u, hm⟩)
        · obtain rfl := Option.some.inj (hr.symm.trans he)
          exact .inr ⟨t, .inr rfl⟩
        · exact .inr ⟨u, .inl hm⟩
    · rw [if_neg hn]
      refine or_congr_right (exists_congr fun u => or_iff_left ?_)
      intro he
      cases he
      exact hn rfl
  | other ha =>
    apply tells_concat
    rintro ticket rfl
    exact ha rfl
  | _ => exact tells_concat (by simp)

theorem tells_receipt (hn : ¬ ∃ r, Tells h o ticket r) :
    Tells h (o.receipt ticket receipt) n r ↔ Tells h o n r ∨ (n = ticket ∧ r = receipt) := by
  by_cases he : n = ticket
  · subst he
    constructor
    · rintro (hr | hm)
      · simp only [Outbox.receipt, Table.get?_insert, if_pos, Option.some.injEq] at hr
        exact .inr ⟨rfl, hr.symm⟩
      · exact absurd ⟨r, .inr hm⟩ hn
    · rintro (hr | ⟨-, rfl⟩)
      · exact absurd ⟨r, hr⟩ hn
      · exact .inl (by simp [Outbox.receipt])
  · simp [Tells, Outbox.receipt, he]

theorem tells_stop (hn : ∀ n ∈ ticketsOf o.errands, ¬ ∃ r, Tells h o n r) :
    Tells h o.stop n r ↔ Tells h o n r ∨ (n ∈ ticketsOf o.errands ∧ r = .dropped) := by
  have hreceipts : o.stop.receipts.get? n = if n ∈ ticketsOf o.errands then some .dropped else o.receipts.get? n :=
    Outbox.receipts_stop o n
  rw [Tells, hreceipts]
  by_cases he : n ∈ ticketsOf o.errands
  · have hnone := hn n he
    rw [if_pos he]
    constructor
    · rintro (hr | hm)
      · exact .inr ⟨he, (Option.some.inj hr).symm⟩
      · exact absurd ⟨r, .inr hm⟩ hnone
    · rintro (hr | ⟨-, rfl⟩)
      · exact absurd ⟨r, hr⟩ hnone
      · exact .inl rfl
  · rw [if_neg he]
    simp [Tells, he]

end

structure Notices (h : History) (frames : List Json) (o : Outbox) (owed : List Nat) : Prop where
  lt : ∀ n r, Tells h o n r → n < o.nextTicket
  fresh : ∀ n ∈ owed ++ ticketsOf o.errands, ¬ ∃ r, Tells h o n r
  written_iff : ∀ n r, Tells h o n r → (r = .written ↔ n < frames.length)
  told : ∀ n < o.nextTicket, n ∈ owed ++ ticketsOf o.errands ∨ ∃ r, Tells h o n r

namespace Notices

variable {h : History} {frames : List Json} {o o' : Outbox} {owed : List Nat} {d : Deed} {ticket : Nat}

theorem concat (hn : Notices h frames o owed) (hd : ∀ ticket, d.action ≠ .awaitReceipt ticket) :
    Notices (h ++ [d]) frames o owed := by
  constructor
  all_goals simp only [tells_concat hd]
  · exact hn.lt
  · exact hn.fresh
  · exact hn.written_iff
  · exact hn.told

theorem use (hn : Notices h frames o owed) {t : TaskId} {a : Action} {answer : a.Answer} (hu : o.Use a answer o') :
    Notices (h ++ [⟨t, a, answer⟩]) frames o' owed := by
  have htells : ∀ n r, Tells (h ++ [⟨t, a, answer⟩]) o' n r ↔ Tells h o n r := fun _ _ => tells_use hu
  -- the same receipts, and a new ticket stands for a frame that waits
  have hcases : (o'.nextTicket = o.nextTicket ∧ ticketsOf o'.errands = ticketsOf o.errands) ∨
      (o'.nextTicket = o.nextTicket + 1 ∧ ticketsOf o'.errands = ticketsOf o.errands ++ [o.nextTicket]) := by
    cases hu with
    | handIn frame hs => exact .inr ⟨rfl, by simp⟩
    | askToClose hs => exact .inl ⟨rfl, by simp⟩
    | _ => exact .inl ⟨rfl, rfl⟩
  constructor
  all_goals simp only [htells]
  · intro n r hr
    have hlt := hn.lt n r hr
    omega
  · rcases hcases with ⟨-, he⟩ | ⟨-, he⟩
    · rw [he]
      exact hn.fresh
    · rw [he, ← List.append_assoc]
      intro n hmem
      rcases List.mem_append.mp hmem with hmem | hmem
      · exact hn.fresh n hmem
      · rintro ⟨r, hr⟩
        rw [List.mem_singleton.mp hmem] at hr
        exact Nat.lt_irrefl _ (hn.lt _ r hr)
  · exact hn.written_iff
  · rcases hcases with ⟨hnext, he⟩ | ⟨hnext, he⟩
    · rw [hnext, he]
      exact hn.told
    · rw [hnext, he, ← List.append_assoc]
      intro n hlt
      rcases Nat.lt_succ_iff_lt_or_eq.mp hlt with hlt | rfl
      · exact (hn.told n hlt).imp_left (List.mem_append_left _)
      · exact .inl (by simp)

theorem take (hn : Notices h frames o []) {e : Errand} (ht : o.take? = some (e, o')) :
    Notices h frames o' (ticketsOf [e]) := by
  obtain ⟨errands, herrands, rfl⟩ := take_cases ht
  have hwaits : ticketsOf [e] ++ ticketsOf errands = [] ++ ticketsOf o.errands := by
    rw [herrands, ticketsOf_cons e errands, List.nil_append]
  refine ⟨hn.lt, ?_, hn.written_iff, ?_⟩
  all_goals rw [hwaits]
  · exact hn.fresh
  · exact hn.told

theorem write (hn : Notices h frames o [frames.length]) (frame : Json) :
    Notices h (frames ++ [frame]) o [frames.length] := by
  refine ⟨hn.lt, hn.fresh, ?_, hn.told⟩
  intro n r hr
  have hne : n ≠ frames.length := by
    rintro rfl
    exact hn.fresh _ (by simp) ⟨r, hr⟩
  rw [hn.written_iff n r hr, List.length_append, List.length_singleton]
  omega

theorem give (hn : Notices h frames o [ticket]) (hlt : ticket < o.nextTicket) (hw : ticket ∉ ticketsOf o.errands)
    {receipt : Receipt} (hr : receipt = .written ↔ ticket < frames.length) :
    Notices h frames (o.receipt ticket receipt) [] := by
  have htells : ∀ n r, Tells h (o.receipt ticket receipt) n r ↔ Tells h o n r ∨ (n = ticket ∧ r = receipt) :=
    fun _ _ => tells_receipt (hn.fresh ticket (by simp))
  constructor
  all_goals simp only [htells]
  · rintro n r (h | ⟨rfl, -⟩)
    · exact hn.lt n r h
    · exact hlt
  · rintro n hmem ⟨r, h | ⟨rfl, -⟩⟩
    · exact hn.fresh n (List.mem_cons_of_mem _ hmem) ⟨r, h⟩
    · exact hw hmem
  · rintro n r (h | ⟨rfl, rfl⟩)
    · exact hn.written_iff n r h
    · exact hr
  · intro n hlt
    rcases hn.told n hlt with hmem | ⟨r, h⟩
    · rcases List.mem_cons.mp hmem with rfl | hmem
      · exact .inr ⟨receipt, .inr ⟨rfl, rfl⟩⟩
      · exact .inl hmem
    · exact .inr ⟨r, .inl h⟩

theorem stop (hn : Notices h frames o []) (hw : ∀ n ∈ ticketsOf o.errands, frames.length ≤ n ∧ n < o.nextTicket) :
    Notices h frames o.stop [] := by
  have htells : ∀ n r, Tells h o.stop n r ↔ Tells h o n r ∨ (n ∈ ticketsOf o.errands ∧ r = .dropped) :=
    fun _ _ => tells_stop hn.fresh
  constructor
  all_goals simp only [htells]
  · rintro n r (h | ⟨h, -⟩)
    · exact hn.lt n r h
    · exact (hw n h).2
  · intro n hmem
    exact absurd hmem List.not_mem_nil
  · rintro n r (h | ⟨h, rfl⟩)
    · exact hn.written_iff n r h
    · exact iff_of_false Receipt.noConfusion (Nat.not_lt.mpr (hw n h).1)
  · intro n hlt
    rcases hn.told n hlt with hmem | ⟨r, h⟩
    · exact .inr ⟨.dropped, .inr ⟨hmem, rfl⟩⟩
    · exact .inr ⟨r, .inl h⟩

end Notices

/-! ## The wire -/

theorem write_cases (o : Outlet) (frame : Json) :
    ((o.write frame).1 = .ok () ∧ (o.write frame).2.written = o.written ++ Frame.write frame ∧
      (o.write frame).2.frames = o.frames ++ [frame]) ∨
    ∃ torn, (o.write frame).1 = .error o.fault ∧ (o.write frame).2.written = o.written ++ torn ∧
      (o.write frame).2.frames = o.frames ∧ torn <+: Frame.write frame := by
  rw [Outlet.write]
  cases o.room with
  | none => exact .inl ⟨rfl, rfl, rfl⟩
  | some room =>
    simp only
    split
    · exact .inl ⟨rfl, rfl, rfl⟩
    · exact .inr ⟨_, rfl, rfl, rfl, List.take_prefix _ _⟩

theorem frames_write_of_ok {o : Outlet} {frame : Json} {u : Unit} (h : (o.write frame).1 = .ok u) :
    (o.write frame).2.frames = o.frames ++ [frame] := by
  rcases write_cases o frame with ⟨-, -, hf⟩ | ⟨_, he, -⟩
  · exact hf
  · rw [h] at he
    cases he

theorem frames_write_of_error {o : Outlet} {frame : Json} {reason : String} (h : (o.write frame).1 = .error reason) :
    (o.write frame).2.frames = o.frames := by
  rcases write_cases o frame with ⟨ho, -⟩ | ⟨_, -, -, hf, -⟩
  · rw [h] at ho
    cases ho
  · exact hf

structure Wire (h : History) (o : Outlet) (failed : Option Json) : Prop where
  bytes : ∃ torn, o.written = o.frames.flatMap Frame.write ++ torn ∧ torn <+: failed.elim [] Frame.write
  failures : ∀ frame, (∃ t reason, ⟨t, .write frame, .error reason⟩ ∈ h) ↔ failed = some frame

namespace Wire

variable {h : History} {o o' : Outlet} {failed : Option Json} {d : Deed} {t : TaskId} {frame : Json}

theorem concat (hw : Wire h o failed) (hb : o'.written = o.written) (hf : o'.frames = o.frames)
    (hd : ∀ frame, d.action ≠ .write frame) : Wire (h ++ [d]) o' failed := by
  refine ⟨?_, ?_⟩
  · rw [hb, hf]
    exact hw.bytes
  · intro frame
    simp only [mem_concat_of_ne (hd frame)]
    exact hw.failures frame

theorem of_ok (hw : Wire h o none) {u : Unit} (hok : (o.write frame).1 = .ok u) :
    Wire (h ++ [⟨t, .write frame, .ok u⟩]) (o.write frame).2 none := by
  rcases write_cases o frame with ⟨-, hb, hf⟩ | ⟨_, herror, -⟩
  · obtain ⟨torn, hbytes, htorn⟩ := hw.bytes
    have hnil : torn = [] := List.prefix_nil.mp htorn
    refine ⟨⟨[], ?_, List.nil_prefix⟩, ?_⟩
    · rw [hb, hf, hbytes, hnil]
      simp
    · intro frame'
      rw [← hw.failures frame']
      simp
  · rw [hok] at herror
    cases herror

theorem of_error (hw : Wire h o none) {reason : String} (herror : (o.write frame).1 = .error reason) :
    Wire (h ++ [⟨t, .write frame, .error reason⟩]) (o.write frame).2 (some frame) := by
  rcases write_cases o frame with ⟨hok, -⟩ | ⟨torn', -, hb, hf, htorn'⟩
  · rw [herror] at hok
    cases hok
  · obtain ⟨torn, hbytes, htorn⟩ := hw.bytes
    have hnil : torn = [] := List.prefix_nil.mp htorn
    refine ⟨⟨torn', ?_, htorn'⟩, ?_⟩
    · rw [hb, hf, hbytes, hnil, List.append_nil]
    · intro frame'
      have hbefore : ¬ ∃ t reason, ⟨t, .write frame', .error reason⟩ ∈ h := fun he => by
        have hnone := (hw.failures frame').mp he
        cases hnone
      constructor
      · rintro ⟨u, r, hm⟩
        rcases List.mem_append.mp hm with hm | hm
        · exact absurd ⟨u, r, hm⟩ hbefore
        · cases List.mem_singleton.mp hm
          rfl
      · intro he
        cases he
        exact ⟨t, reason, by simp⟩

end Wire

end Liaison
