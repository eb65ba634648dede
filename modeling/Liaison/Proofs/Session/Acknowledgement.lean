import Liaison.Proofs.Session.WriteInvariant
import Liaison.Proofs.Session.AwaitedReceipts

/-!
# Acknowledgement

Whoever sends a message is told that it was written just if it was. What was written is an initial run of what was
asked for, frame after frame, and after the last one there is at most a part of the frame whose writing failed.
-/

namespace Liaison

/-! ## Sending -/

/-- Carried out by the task, the routine does these deeds and returns this. -/
inductive Routine.Runs {α : Type} (t : TaskId) : Routine α → History → α → Prop
  | done (a : α) : Runs t (.done a) [] a
  | step {action : Action} {next : action.Answer → Routine α} {deeds : History} {a : α} (answer : action.Answer)
    (h : Runs t (next answer) deeds a) : Runs t (.step action next) (⟨t, action, answer⟩ :: deeds) a

def Receipt.outcome : Receipt → Except CallError Unit
  | written => .ok ()
  | failed reason => .error (.transport ("write failed: " ++ reason))
  | dropped => .error writerClosed

theorem Receipt.outcome_eq_ok_iff (r : Receipt) : r.outcome = .ok () ↔ r = .written := by
  cases r <;> simp [outcome]

theorem Receipt.error_of_ne_written {r : Receipt} (h : r ≠ .written) :
    ∃ reason, r.outcome = .error (.transport reason) := by
  cases r with
  | written => exact absurd rfl h
  | failed reason => exact ⟨_, rfl⟩
  | dropped => exact ⟨_, rfl⟩

/-- Sending a message fails at once if nobody writes any more, or it comes to what the receipt says. -/
theorem runs_send {t : TaskId} {m : Message} {deeds : History} {result : Except CallError Unit}
    (h : (send m).run.Runs t deeds result) :
    (deeds = [⟨t, .enqueue m.toJson, none⟩] ∧ result = .error writerClosed) ∨
      ∃ n r, deeds = [⟨t, .enqueue m.toJson, some n⟩, ⟨t, .awaitReceipt n, r⟩] ∧ result = r.outcome := by
  cases h with
  | step ticket h =>
    cases ticket with
    | none =>
      cases h
      exact .inl ⟨rfl, rfl⟩
    | some n =>
      cases h with
      | step receipt h =>
        refine .inr ⟨n, receipt, ?_⟩
        cases receipt with
        | written =>
          cases h
          exact ⟨rfl, rfl⟩
        | failed reason =>
          cases h
          exact ⟨rfl, rfl⟩
        | dropped =>
          cases h
          exact ⟨rfl, rfl⟩

/-! ## The task that writes at rest -/

def Writing.toGo (waiting : Nat) : Writing → Routine Next → Nat
  | idle, .step _ _ => 4 * waiting + 3
  | idle, .done _ => 4 * waiting + 4
  | carried _, _ => 4 * waiting + 5
  | carrying _ _, _ => 4 * waiting + 6
  | failing _ _ _, _ => 5
  | ending _ _, _ => 4
  | terminating _ _, _ | closing, _ => 3
  | stopping _, _ => 2
  | stopped _, _ => 1
  | elsewhere, _ => 0

def Course.toWrite (x : Course) (place : Writing) : Nat :=
  match x.machine.tasks.get? 0 with
  | some r => place.toGo x.machine.outbox.errands.length r
  | none => 0

section

variable {occurrences : List Occurrence} {x : Course} {places : TaskId → Writing}

theorem toWrite_le (x : Course) (place : Writing) : x.toWrite place ≤ 4 * x.machine.outbox.errands.length + 6 := by
  rw [Course.toWrite]
  split
  · rename_i r _
    cases place <;> cases r <;> simp [Writing.toGo]
  · exact Nat.zero_le _

theorem Writing.toGo_after {place : Writing} {t : TaskId} {a : Action} {answer : a.Answer} {m m' : Machine}
    {next : a.Answer → Routine Next} (ha : place.Allows a) (he : place ≠ .elsewhere)
    (hp : m.perform t a = some (answer, m')) :
    (place.after a answer).toGo m'.outbox.errands.length (next answer) <
      place.toGo m.outbox.errands.length (.step a next) := by
  cases place with
  | idle =>
    -- What waits becomes one less, and that pays for what is to be done about the one taken.
    cases ha
    obtain ⟨⟨errand, o⟩, ht, he⟩ := Option.map_eq_some_iff.mp hp
    cases he
    obtain ⟨errands, herrands, rfl⟩ := take_cases ht
    rw [toGo, herrands, List.length_cons]
    cases answer with
    | send frame ticket =>
      change 4 * errands.length + 6 < _
      omega
    | close =>
      change 3 < _
      omega
  | carrying frame ticket =>
    cases ha
    simp only [Machine.perform, Option.some.injEq, Prod.mk.injEq] at hp
    obtain ⟨-, rfl⟩ := hp
    cases answer with
    | ok _ => exact Nat.lt_succ_self _
    | error reason => exact Nat.lt_of_lt_of_le (Nat.lt_succ_self 5) (Nat.le_add_left 6 _)
  | carried ticket =>
    cases ha
    cases hp
    change idle.toGo m.outbox.errands.length (next ()) < _
    cases next () <;> simp [toGo]
  | failing frame ticket reason => exact Nat.lt_succ_self _
  | ending frame ticket => exact Nat.lt_succ_self _
  | terminating frame ticket => exact Nat.lt_succ_self _
  | closing => exact Nat.lt_succ_self _
  | stopping last => exact Nat.lt_succ_self _
  | stopped last => exact ha.elim
  | elsewhere => exact absurd rfl he

theorem toWrite_step (h : WriteInvariant occurrences x places) (hc : x.machine.KeepsRules Writing.placement places)
    (hadv : x.machine.advance 0 ≠ none) :
    ∃ places', (x.happen (.step 0)).machine.KeepsRules Writing.placement places' ∧
      WriteInvariant (occurrences ++ [.step 0]) (x.happen (.step 0)) places' ∧
      (x.happen (.step 0)).toWrite (places' 0) < x.toWrite (places 0) := by
  obtain ⟨places', hmove, hc'⟩ := hc.step 0
  refine ⟨places', hc', h.move hmove, ?_⟩
  generalize x.happen (.step 0) = x' at hmove
  cases hmove with
  | @act _ a answer m next ht ha hp =>
    have hlt : ((places 0).after a answer).toGo m.outbox.errands.length (next answer) < _ :=
      Writing.toGo_after ha h.books.ne_elsewhere hp
    rw [Function.update_self, Course.toWrite, Course.toWrite, ht, Table.get?_insert, if_pos rfl]
    exact hlt
  | spawn ht ha => exact absurd (Writing.not_spawn ha).1 h.books.ne_elsewhere
  | @finish _ result ht hf =>
    obtain ⟨last, hlast⟩ := h.left result hf
    rw [Course.toWrite, Course.toWrite, ht, Table.get?_erase, if_pos rfl, hlast]
    exact Nat.zero_lt_one
  | @resume _ phase ht hf =>
    obtain ⟨hidle, rfl⟩ := h.resumed phase hf
    rw [Function.update_self, Course.toWrite, Course.toWrite, ht, Table.get?_insert, if_pos rfl, hidle]
    exact Nat.lt_succ_self _
  | wait hw => exact absurd hw hadv
  | world he => cases he

/-- The task that writes comes to rest after so many steps, if it takes them. -/
theorem exists_writing (h : WriteInvariant occurrences x places) (hc : x.machine.KeepsRules Writing.placement places) :
    ∃ n ≤ x.toWrite (places 0), (x.run (List.replicate n (.step 0))).machine.advance 0 = none := by
  obtain ⟨n, hn, _, -, -, hrest⟩ := Placement.exists_rest toWrite_step h hc
  exact ⟨n, hn, hrest⟩

/-- When the task that writes rests, nothing waits for it: it has done all that it was asked for, or it has stopped. -/
theorem WriteInvariant.rest (h : WriteInvariant occurrences x places)
    (hc : x.machine.KeepsRules Writing.placement places) (hdrop : .drop 0 ∉ occurrences)
    (hadv : x.machine.advance 0 = none) :
    x.machine.outbox.errands = [] ∧ (places 0 = .idle ∨ ∃ last, places 0 = .stopped last) := by
  have hdone : ∀ last, places 0 = .stopped last → x.machine.outbox.errands = [] := by
    intro last hlast
    have hstopped := h.books.stopped
    rw [hlast] at hstopped
    exact h.books.account.emptied hstopped
  cases ht : x.machine.tasks.get? 0 with
  | none =>
    obtain ⟨last, hlast⟩ := (h.present ht).resolve_right hdrop
    exact ⟨hdone last hlast, .inr ⟨last, hlast⟩⟩
  | some r =>
    have hkeeps := hc.keeps 0 r ht
    rw [Machine.advance, ht] at hadv
    cases r with
    | done next => cases next <;> cases hadv
    | step a next =>
      have hwaits : x.machine.perform 0 a = none := Option.map_eq_none_iff.mp hadv
      obtain ⟨ha, -⟩ := hkeeps
      change (places 0).Allows a at ha
      have hne := h.books.ne_elsewhere
      generalize places 0 = place at ha hdone hne
      -- It never waits but for its next errand.
      cases place with
      | idle =>
        cases ha
        refine ⟨?_, .inl rfl⟩
        rw [Machine.perform, Option.map_eq_none_iff, Outbox.take?] at hwaits
        cases herrands : x.machine.outbox.errands with
        | nil => rfl
        | cons first errands =>
          rw [herrands] at hwaits
          cases hwaits
      | ending frame ticket =>
        obtain ⟨reason, rfl⟩ := ha
        cases hwaits
      | stopped last => exact ⟨hdone last rfl, .inr ⟨last, rfl⟩⟩
      | elsewhere => exact absurd rfl hne
      | _ =>
        cases ha
        cases hwaits

end

/-! ## All that was asked for -/

def Failed (h : History) (frame : Json) : Prop :=
  ∃ t reason, ⟨t, .write frame, .error reason⟩ ∈ h

/-- What the task that writes was asked to do before it was told to close. -/
def requested (h : History) : List Errand :=
  (entrusted h).takeWhile (· ≠ .close)

/-- The task that writes has done its work. Nobody waits for it, all was written unless a write failed, and then the
session has ended. -/
structure Course.HasWritten (x : Course) : Prop where
  heard : ∀ t n next, x.machine.tasks.get? t = some (.step (.awaitReceipt n) next) →
    (x.machine.perform t (.awaitReceipt n)).isSome = true
  roomy : x.machine.outbox.isFull = false
  whole : (∀ frame, ¬ Failed x.history frame) → sends x.machine.outlet.frames = requested x.history
  ended : ∀ frame, Failed x.history frame → x.machine.registry.IsShut ∧ x.machine.state = .terminated

/-- What is on the wire is an initial run of what was asked for, and a part of the next frame if its writing failed.
Sending succeeds for the frames of the run. For all others it fails if it returns, and so it does for those who come
after the one that failed or after somebody has asked to close. -/
structure Course.AcknowledgesSends (x : Course) (occurrences : List Occurrence) : Prop where
  bytes : ∃ torn, x.machine.outlet.written = x.machine.outlet.frames.flatMap Frame.write ++ torn ∧
    (torn = [] ∨ ∃ frame, Failed x.history frame ∧ torn <+: Frame.write frame)
  run : sends x.machine.outlet.frames <+: requested x.history
  failure : ∀ frame, Failed x.history frame →
    sends x.machine.outlet.frames ++ [.send frame x.machine.outlet.frames.length] <+: requested x.history
  sent : ∀ t m deeds result, (send m).run.Runs t deeds result → deeds.Sublist x.history →
    (result = .ok () ↔ ∃ e ∈ entrusted deeds, e ∈ sends x.machine.outlet.frames) ∧
      ∀ e, result = .error e → ∃ reason, e = .transport reason
  refused : ∀ t m deeds result before d after, (send m).run.Runs t deeds result →
    x.history = before ++ d :: after → deeds.Sublist after →
    (d.errand? = some .close ∨
      ∃ frame, Failed x.history frame ∧ d.errand? = some (.send frame x.machine.outlet.frames.length)) →
    (∃ reason, result = .error (.transport reason)) ∧ ∀ e ∈ entrusted deeds, e ∉ sends x.machine.outlet.frames
  settled : .drop 0 ∉ occurrences → x.machine.advance 0 = none → x.HasWritten

theorem isPrefix_requested {h : History} {errands : List Errand} (he : errands <+: entrusted h)
    (hne : ∀ e ∈ errands, e ≠ .close) : errands <+: requested h := by
  obtain ⟨rest, hrest⟩ := he
  rw [requested, ← hrest, List.takeWhile_append_of_pos (by simpa using hne)]
  exact List.prefix_append _ _

theorem requested_eq {h : History} {errands rest : List Errand} (he : entrusted h = errands ++ rest)
    (hne : ∀ e ∈ errands, e ≠ .close) (hrest : rest = [] ∨ rest.head? = some .close) : requested h = errands := by
  rw [requested, he, List.takeWhile_append_of_pos (by simpa using hne)]
  rcases hrest with rfl | hclose
  · simp
  · cases rest with
    | nil => cases hclose
    | cons e rest =>
      cases hclose
      simp

theorem Writing.inHand_of_failed {place : Writing} {frame : Json} (h : place.failed? = some frame) :
    ∃ ticket, place.inHand = [.send frame ticket] := by
  cases place with
  | failing f ticket reason =>
    cases h
    exact ⟨ticket, rfl⟩
  | ending f ticket =>
    cases h
    exact ⟨ticket, rfl⟩
  | terminating f ticket =>
    cases h
    exact ⟨ticket, rfl⟩
  | stopping last =>
    cases last with
    | close => cases h
    | send f ticket =>
      cases h
      exact ⟨ticket, rfl⟩
  | stopped last =>
    cases last with
    | close => cases h
    | send f ticket =>
      cases h
      exact ⟨ticket, rfl⟩
  | _ => cases h

namespace WriteInvariant

variable {occurrences : List Occurrence} {x : Course} {places : TaskId → Writing}

theorem sent (h : WriteInvariant occurrences x places) {t : TaskId} {m : Message} {deeds : History}
    {result : Except CallError Unit} (hrun : (send m).run.Runs t deeds result) (hsub : deeds.Sublist x.history) :
    (result = .ok () ↔ ∃ e ∈ entrusted deeds, e ∈ sends x.machine.outlet.frames) ∧
      ∀ e, result = .error e → ∃ reason, e = .transport reason := by
  rcases runs_send hrun with ⟨rfl, rfl⟩ | ⟨n, r, rfl, rfl⟩
  · refine ⟨iff_of_false (by simp) (by simp [entrusted, Deed.errand?]), ?_⟩
    intro e he
    cases he
    exact ⟨_, rfl⟩
  · have htold : Tells x.history x.machine.outbox n r := .inr ⟨t, hsub.subset (by simp)⟩
    have hasked : .send m.toJson n ∈ entrusted x.history :=
      List.mem_filterMap.mpr ⟨⟨t, .enqueue m.toJson, some n⟩, hsub.subset (by simp), rfl⟩
    refine ⟨?_, ?_⟩
    · rw [Receipt.outcome_eq_ok_iff, h.books.notices.written_iff n r htold, ← h.books.account.mem_sends_iff hasked]
      simp [entrusted, Deed.errand?]
    · intro e he
      have hne : r ≠ .written := by
        rintro rfl
        cases he
      obtain ⟨reason, hr⟩ := Receipt.error_of_ne_written hne
      rw [hr] at he
      cases he
      exact ⟨reason, rfl⟩

theorem refused (h : WriteInvariant occurrences x places) {t : TaskId} {m : Message} {deeds before after : History}
    {d : Deed} {result : Except CallError Unit} (hrun : (send m).run.Runs t deeds result)
    (hh : x.history = before ++ d :: after) (hsub : deeds.Sublist after)
    (hd : d.errand? = some .close ∨ ∃ frame, d.errand? = some (.send frame x.machine.outlet.frames.length)) :
    (∃ reason, result = .error (.transport reason)) ∧ ∀ e ∈ entrusted deeds, e ∉ sends x.machine.outlet.frames := by
  have hall : deeds.Sublist x.history := by
    rw [hh]
    exact hsub.trans ((List.sublist_cons_self d after).trans (List.sublist_append_right before _))
  have hlate : ∀ e ∈ entrusted deeds, e ∉ sends x.machine.outlet.frames := by
    rcases runs_send hrun with ⟨rfl, -⟩ | ⟨n, r, rfl, -⟩
    · simp [entrusted, Deed.errand?]
    · have hlater : n ∈ ticketsOf (entrusted after) := mem_ticketsOf_entrusted (hsub.subset List.mem_cons_self)
      obtain ⟨e, he, hnext⟩ : ∃ e, d.errand? = some e ∧
          (e = .close ∨ ∃ frame, e = .send frame x.machine.outlet.frames.length) := by
        rcases hd with hd | ⟨frame, hd⟩
        · exact ⟨_, hd, .inl rfl⟩
        · exact ⟨_, hd, .inr ⟨frame, rfl⟩⟩
      have hasked : entrusted x.history = entrusted before ++ e :: entrusted after := by
        rw [hh, entrusted_append]
        exact congrArg _ (List.filterMap_cons_some he)
      have hle := h.books.account.le_of_later hasked hnext hlater
      have hmem : .send m.toJson n ∈ entrusted x.history :=
        List.mem_filterMap.mpr ⟨⟨t, .enqueue m.toJson, some n⟩, hall.subset (by simp), rfl⟩
      intro e he hs
      obtain rfl : e = .send m.toJson n := by simpa [entrusted, Deed.errand?] using he
      exact Nat.not_lt.mpr hle ((h.books.account.mem_sends_iff hmem).mp hs)
  refine ⟨?_, hlate⟩
  obtain ⟨hok, herror⟩ := h.sent hrun hall
  cases result with
  | ok u =>
    obtain ⟨e, he, hs⟩ := hok.mp rfl
    exact absurd hs (hlate e he)
  | error e =>
    obtain ⟨reason, rfl⟩ := herror e rfl
    exact ⟨reason, rfl⟩

theorem heard (h : WriteInvariant occurrences x places) {k : Conducts} (hd : x.machine.Disciplined k)
    (hr : AwaitsReceipts x.history k) (hempty : x.machine.outbox.errands = []) (howed : (places 0).owed = [])
    {t : TaskId} {n : Nat} {next : Receipt → Routine Next}
    (ht : x.machine.tasks.get? t = some (.step (.awaitReceipt n) next)) :
    (x.machine.perform t (.awaitReceipt n)).isSome = true := by
  have hissued := h.books.account.issued
  have hheld : (k t).ticket = some n := (hd.obeys t _ ht).1
  have hlt : n < x.machine.outbox.nextTicket := by
    obtain ⟨before, d, after, hh, ⟨frame, rfl⟩, -⟩ := hr.held t n hheld
    rw [← List.mem_range, ← hissued]
    exact mem_ticketsOf_entrusted (hh ▸ List.mem_append_right _ List.mem_cons_self)
  have hnone := hr.unreceived (hissued ▸ List.nodup_range) hheld
  rcases h.books.notices.told n hlt with hwaits | ⟨r, hget | ⟨u, hm⟩⟩
  · rw [howed, hempty] at hwaits
    exact absurd hwaits List.not_mem_nil
  · rw [Machine.perform, Outbox.collect?, hget]
    rfl
  · exact absurd hm (hnone u r)

theorem whole (h : WriteInvariant occurrences x places) (hempty : x.machine.outbox.errands = [])
    (hplace : places 0 = .idle ∨ ∃ last, places 0 = .stopped last) (hfine : ∀ frame, ¬ Failed x.history frame) :
    sends x.machine.outlet.frames = requested x.history := by
  obtain ⟨dropped, hasked, hdropped⟩ := h.books.account.balance
  rw [hempty, List.append_nil, List.append_assoc] at hasked
  refine (requested_eq hasked (fun e => ne_close_of_mem_sends) ?_).symm
  rcases hplace with hidle | ⟨last, hlast⟩
  · left
    have hstopped := h.books.stopped
    rw [hidle] at hstopped ⊢
    rw [hdropped hstopped]
    rfl
  · right
    rw [hlast]
    cases last with
    | close => rfl
    | send frame ticket =>
      exact absurd ((h.books.wire.failures frame).mpr (by rw [hlast]; rfl)) (hfine frame)

theorem ended (h : WriteInvariant occurrences x places) (hplace : places 0 = .idle ∨ ∃ last, places 0 = .stopped last)
    {frame : Json} (hfailed : Failed x.history frame) :
    x.machine.registry.IsShut ∧ x.machine.state = .terminated := by
  have hfailed := (h.books.wire.failures frame).mp hfailed
  rcases hplace with hidle | ⟨last, hlast⟩
  · rw [hidle] at hfailed
    cases hfailed
  · have hholds := h.books.holds
    rw [hlast] at hfailed hholds
    cases last with
    | close => cases hfailed
    | send frame ticket => exact hholds

theorem hasWritten (h : WriteInvariant occurrences x places) (hc : x.machine.KeepsRules Writing.placement places)
    {k : Conducts} (hd : x.machine.Disciplined k) (hr : AwaitsReceipts x.history k) (hdrop : .drop 0 ∉ occurrences)
    (hadv : x.machine.advance 0 = none) : x.HasWritten := by
  obtain ⟨hempty, hplace⟩ := h.rest hc hdrop hadv
  have howed : (places 0).owed = [] := by
    rcases hplace with hidle | ⟨last, hlast⟩
    · rw [hidle]
      rfl
    · rw [hlast]
      rfl
  have hroomy : x.machine.outbox.isFull = false := by simp [Outbox.isFull, Outbox.capacity, hempty]
  exact ⟨fun _ _ _ ht => h.heard hd hr hempty howed ht, hroomy, h.whole hempty hplace, fun _ hf => h.ended hplace hf⟩

theorem posts (h : WriteInvariant occurrences x places) (hc : x.machine.KeepsRules Writing.placement places)
    {k : Conducts} (hd : x.machine.Disciplined k) (hr : AwaitsReceipts x.history k) :
    x.AcknowledgesSends occurrences where
  bytes := by
    obtain ⟨torn, hbytes, htorn⟩ := h.books.wire.bytes
    refine ⟨torn, hbytes, ?_⟩
    cases hfailed : (places 0).failed? with
    | none =>
      rw [hfailed] at htorn
      exact .inl (List.prefix_nil.mp htorn)
    | some frame =>
      rw [hfailed] at htorn
      exact .inr ⟨frame, (h.books.wire.failures frame).mpr hfailed, htorn⟩
  run := by
    apply isPrefix_requested ((List.prefix_append _ _).trans h.books.account.sends_isPrefix)
    exact fun e => ne_close_of_mem_sends
  failure frame hfailed := by
    obtain ⟨ticket, hhand⟩ := Writing.inHand_of_failed ((h.books.wire.failures frame).mp hfailed)
    have haccount := h.books.account
    rw [hhand] at haccount
    rw [← haccount.ticket_eq]
    apply isPrefix_requested haccount.sends_isPrefix
    intro e he
    rcases List.mem_append.mp he with he | he
    · exact ne_close_of_mem_sends he
    · rw [List.mem_singleton.mp he]
      exact Errand.noConfusion
  sent _ _ _ _ hrun hsub := h.sent hrun hsub
  refused _ _ _ _ _ _ _ hrun hh hsub hd := h.refused hrun hh hsub (hd.imp_right fun ⟨frame, hf⟩ => ⟨frame, hf.2⟩)
  settled hdrop hadv := h.hasWritten hc hd hr hdrop hadv

end WriteInvariant

/-- Whatever happens to a session, and whenever writing begins to fail: what is sent is acknowledged just if it was
written, and the task that writes needs only some more steps until it has done its work. -/
theorem sends_acknowledged_iff_written (o : ClientOptions) (files : FileTree) (hasProcess : Bool)
    (occurrences : List Occurrence) :
    let x := (Course.begin o files hasProcess).run occurrences
    x.AcknowledgesSends occurrences ∧ ∃ n ≤ 4 * x.machine.outbox.errands.length + 6,
      (x.run (List.replicate n (.step 0))).machine.advance 0 = none := by
  obtain ⟨places, hc, h⟩ := writeInvariant_run o files hasProcess occurrences
  obtain ⟨k, hd, hr⟩ := awaitsReceipts_run o files hasProcess occurrences
  refine ⟨h.posts hc hd hr, ?_⟩
  obtain ⟨n, hn, hrest⟩ := exists_writing h hc
  exact ⟨n, Nat.le_trans hn (toWrite_le _ _), hrest⟩

/-- The first frame is written, the second one is torn, and the third one comes too late. -/
example :
    let x := (Course.begin ⟨"rust", "rust", [], none, 1, 1, .null⟩ ⟨[], []⟩ false).run
      ([.limitOutput 60 "broken pipe", .start (.notify "a" none), .start (.notify "b" none),
        .start (.notify "c" none), .step 3, .step 4, .step 5] ++ List.replicate 11 (.step 0) ++
        List.replicate 2 (.step 3) ++ List.replicate 2 (.step 4) ++ List.replicate 2 (.step 5))
    x.machine.outlet.written = Frame.write (Message.notification "a" none).toJson ++ Utf8.ofString "Content-" ∧
      x.machine.state = .terminated ∧
      [3, 4, 5].map (fun t => (x.machine.results.get? t).map (Except.map Finding.toJson)) =
        [some (.ok .null), some (.error (.transport "write failed: broken pipe")),
          some (.error (.transport "writer closed"))] := by
  decide +kernel

end Liaison
