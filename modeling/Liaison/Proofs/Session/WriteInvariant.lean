import Liaison.Proofs.Session.Accounts
import Liaison.Proofs.Session.OneTask

/-!
# The books of the writer

Whatever happens to a session, the books of the task that writes are balanced: wherever it is with writing, its three
accounts agree with what it has in hand.
-/

namespace Liaison

/-! ## The books -/

namespace Writing

def inHand : Writing → List Errand
  | carrying frame ticket | failing frame ticket _ | ending frame ticket | terminating frame ticket =>
    [.send frame ticket]
  | closing => [.close]
  | stopping last | stopped last => [last]
  | idle | carried _ | elsewhere => []

def owed : Writing → List Nat
  | carrying _ ticket | carried ticket | failing _ ticket _ => [ticket]
  | _ => []

def failed? : Writing → Option Json
  | failing frame _ _ | ending frame _ | terminating frame _ => some frame
  | stopping last | stopped last => last.frame?
  | _ => none

def hasStopped : Writing → Bool
  | stopped _ => true
  | _ => false

/-- What else holds when the task that writes is at the place. -/
def Holds (m : Machine) : Writing → Prop
  | carried ticket => ticket + 1 = m.outlet.frames.length
  | terminating _ _ => m.registry.IsShut
  | stopping (.send _ _) | stopped (.send _ _) => m.registry.IsShut ∧ m.state = .terminated
  | elsewhere => False
  | _ => True

end Writing

structure Books (x : Course) (place : Writing) : Prop where
  account : Account (entrusted x.history) x.machine.outlet.frames x.machine.outbox place.inHand
  notices : Notices x.history x.machine.outlet.frames x.machine.outbox place.owed
  wire : Wire x.history x.machine.outlet place.failed?
  stopped : x.machine.outbox.isStopped = place.hasStopped
  holds : place.Holds x.machine

namespace Books

variable {x x' : Course} {place : Writing} {t : TaskId} {a : Action} {answer : a.Answer} {m : Machine}
  {tasks : Table TaskId (Routine Next)}

theorem holds_mono {m m' : Machine} (h : place.Holds m) (hf : m'.outlet.frames = m.outlet.frames)
    (hr : m.registry.IsShut → m'.registry.IsShut) (hs : m.state = .terminated → m'.state = .terminated) :
    place.Holds m' := by
  cases place with
  | carried ticket => exact Eq.trans h (congrArg List.length hf.symm)
  | terminating frame ticket => exact hr h
  | stopping last =>
    cases last with
    | send frame ticket => exact ⟨hr h.1, hs h.2⟩
    | close => trivial
  | stopped last =>
    cases last with
    | send frame ticket => exact ⟨hr h.1, hs h.2⟩
    | close => trivial
  | elsewhere => exact h
  | _ => trivial

theorem congr (h : Books x place) (hh : x'.history = x.history) (ho : x'.machine.outbox = x.machine.outbox)
    (hb : x'.machine.outlet.written = x.machine.outlet.written)
    (hf : x'.machine.outlet.frames = x.machine.outlet.frames)
    (hr : x.machine.registry.IsShut → x'.machine.registry.IsShut)
    (hs : x.machine.state = .terminated → x'.machine.state = .terminated) : Books x' place := by
  refine ⟨?_, ?_, ⟨?_, ?_⟩, ?_, holds_mono h.holds hf hr hs⟩
  · rw [hh, ho, hf]
    exact h.account
  · rw [hh, ho, hf]
    exact h.notices
  · rw [hb, hf]
    exact h.wire.bytes
  · rw [hh]
    exact h.wire.failures
  · rw [ho]
    exact h.stopped

theorem aside (h : Books x place) (ha : a.service? ≠ some .writer) (hp : x.machine.perform t a = some (answer, m)) :
    Books ⟨{ m with tasks := tasks }, x.history ++ [⟨t, a, answer⟩]⟩ place := by
  have huse := use_perform hp ha
  have houtlet := outlet_perform hp ha
  have hwrite : ∀ frame, a ≠ .write frame := by
    rintro frame rfl
    exact ha rfl
  refine ⟨?_, ?_, ?_, huse.isStopped.trans h.stopped, ?_⟩
  · change Account (entrusted (x.history ++ [_])) m.outlet.frames m.outbox place.inHand
    rw [entrusted_concat, houtlet]
    exact h.account.use huse
  · change Notices _ m.outlet.frames m.outbox place.owed
    rw [houtlet]
    exact h.notices.use huse
  · exact h.wire.concat (congrArg _ houtlet) (congrArg _ houtlet) hwrite
  · have hholds : place.Holds m :=
      holds_mono h.holds (congrArg _ houtlet) (carries_perform hp).shut (terminated_perform hp)
    exact holds_mono hholds rfl id id

theorem after_take {errand : Errand} (h : Books x .idle)
    (hp : x.machine.perform t .nextErrand = some (errand, m)) :
    Books ⟨{ m with tasks := tasks }, x.history ++ [⟨t, .nextErrand, errand⟩]⟩
      (Writing.idle.after .nextErrand errand) := by
  obtain ⟨⟨taken, o⟩, ht, he⟩ := Option.map_eq_some_iff.mp hp
  cases he
  have haccount := (h.account.take ht).concat (d := ⟨t, .nextErrand, errand⟩) rfl
  have hnotices := (h.notices.take ht).concat (d := ⟨t, .nextErrand, errand⟩) (by simp)
  have hstopped : o.isStopped = false := by
    obtain ⟨_, -, rfl⟩ := take_cases ht
    exact h.stopped
  cases errand with
  | send frame ticket => exact ⟨haccount, hnotices, h.wire.concat rfl rfl (by simp), hstopped, trivial⟩
  | close => exact ⟨haccount, hnotices, h.wire.concat rfl rfl (by simp), hstopped, trivial⟩

theorem after_write {frame : Json} {ticket : Nat} {result : Except String Unit}
    (h : Books x (.carrying frame ticket)) (hp : x.machine.perform t (.write frame) = some (result, m)) :
    Books ⟨{ m with tasks := tasks }, x.history ++ [⟨t, .write frame, result⟩]⟩
      ((Writing.carrying frame ticket).after (.write frame) result) := by
  obtain ⟨haccount, hnotices, hwire, hstopped, -⟩ := h
  simp only [Machine.perform, Option.some.injEq, Prod.mk.injEq] at hp
  obtain ⟨hw, rfl⟩ := hp
  have hticket := haccount.ticket_eq
  cases result with
  | ok _ =>
    have hframes := frames_write_of_ok hw
    subst hticket
    refine ⟨Account.concat ?_ rfl, ?_, hwire.of_ok hw, hstopped, ?_⟩
    · rw [hframes]
      exact haccount.write
    · rw [hframes]
      exact (hnotices.write frame).concat (by simp)
    · change x.machine.outlet.frames.length + 1 = (x.machine.outlet.write frame).2.frames.length
      rw [hframes, List.length_append, List.length_singleton]
  | error reason =>
    have hframes := frames_write_of_error hw
    refine ⟨Account.concat ?_ rfl, ?_, hwire.of_error hw, hstopped, trivial⟩
    · rw [hframes]
      exact haccount
    · rw [hframes]
      exact hnotices.concat (by simp)

theorem after_written {ticket : Nat} (h : Books x (.carried ticket)) :
    Books ⟨{ x.machine with outbox := x.machine.outbox.receipt ticket .written, tasks := tasks },
      x.history ++ [⟨t, .giveReceipt ticket .written, ()⟩]⟩ .idle := by
  have hlt : ticket < x.machine.outlet.frames.length := Nat.lt_of_succ_le (Nat.le_of_eq h.holds)
  have hnew : ticket ∉ ticketsOf x.machine.outbox.errands := fun hw => Nat.not_le.mpr hlt (h.account.le_of_waits hw)
  have hgiven : Notices x.history x.machine.outlet.frames (x.machine.outbox.receipt ticket .written) [] :=
    h.notices.give (h.account.lt_nextTicket (.inl hlt)) hnew (iff_of_true rfl hlt)
  exact ⟨Account.concat (h.account.congr rfl rfl rfl) rfl, hgiven.concat (by simp), h.wire.concat rfl rfl (by simp),
    h.stopped, trivial⟩

theorem after_failed {frame : Json} {ticket : Nat} {reason : String} (h : Books x (.failing frame ticket reason)) :
    Books ⟨{ x.machine with outbox := x.machine.outbox.receipt ticket (.failed reason), tasks := tasks },
      x.history ++ [⟨t, .giveReceipt ticket (.failed reason), ()⟩]⟩ (.ending frame ticket) := by
  have hmem : ticket ∈ ticketsOf (Writing.failing frame ticket reason).inHand := List.mem_singleton_self _
  have hticket : ticket = x.machine.outlet.frames.length := h.account.ticket_eq
  have hgiven : Notices x.history x.machine.outlet.frames (x.machine.outbox.receipt ticket (.failed reason)) [] :=
    h.notices.give (h.account.lt_nextTicket (.inr (.inl hmem))) (h.account.not_waits hmem)
      (iff_of_false Receipt.noConfusion (Nat.not_lt.mpr (Nat.le_of_eq hticket.symm)))
  exact ⟨Account.concat (h.account.congr rfl rfl rfl) rfl, hgiven.concat (by simp), h.wire.concat rfl rfl (by simp),
    h.stopped, trivial⟩

theorem after_stop {last : Errand} (h : Books x (.stopping last)) :
    Books ⟨{ x.machine with outbox := x.machine.outbox.stop, tasks := tasks },
      x.history ++ [⟨t, .stopWriting, ()⟩]⟩ (.stopped last) := by
  have hleft : ∀ n ∈ ticketsOf x.machine.outbox.errands,
      x.machine.outlet.frames.length ≤ n ∧ n < x.machine.outbox.nextTicket :=
    fun n hn => ⟨h.account.le_of_waits hn, h.account.lt_nextTicket (.inr (.inr hn))⟩
  refine ⟨h.account.stop.concat rfl, (h.notices.stop hleft).concat (by simp),
    h.wire.concat rfl rfl (by simp), rfl, ?_⟩
  have hholds := h.holds
  cases last <;> exact hholds

theorem after (h : Books x place) (ha : place.Allows a) (hp : x.machine.perform t a = some (answer, m)) :
    Books ⟨{ m with tasks := tasks }, x.history ++ [⟨t, a, answer⟩]⟩ (place.after a answer) := by
  have ⟨haccount, hnotices, hwire, hstopped, hholds⟩ := h
  cases place with
  | idle =>
    cases ha
    exact h.after_take hp
  | carrying frame ticket =>
    cases ha
    exact h.after_write hp
  | carried ticket =>
    cases ha
    cases hp
    exact h.after_written
  | failing frame ticket reason =>
    cases ha
    cases hp
    exact h.after_failed
  | ending frame ticket =>
    obtain ⟨reason, rfl⟩ := ha
    cases hp
    exact ⟨haccount.concat rfl, hnotices.concat (by simp), hwire.concat rfl rfl (by simp), hstopped,
      (Registry.carries_closeAll _ reason).2⟩
  | terminating frame ticket =>
    cases ha
    cases hp
    exact ⟨haccount.concat rfl, hnotices.concat (by simp), hwire.concat rfl rfl (by simp), hstopped, hholds, rfl⟩
  | closing =>
    cases ha
    cases hp
    exact ⟨haccount.concat rfl, hnotices.concat (by simp), hwire.concat rfl rfl (by simp), hstopped, trivial⟩
  | stopping last =>
    cases ha
    cases hp
    exact h.after_stop
  | stopped last => exact ha.elim
  | elsewhere => exact hholds.elim

theorem ne_elsewhere (h : Books x place) : place ≠ .elsewhere := by
  rintro rfl
  exact h.holds

end Books

/-! ## Whole runs -/

structure WriteInvariant (occurrences : List Occurrence) (x : Course) (places : TaskId → Writing) : Prop where
  books : Books x (places 0)
  others : ∀ t, t ≠ 0 → places t = .elsewhere
  old : 0 < x.machine.nextTask
  present : x.machine.tasks.get? 0 = none → (∃ last, places 0 = .stopped last) ∨ .drop 0 ∈ occurrences

namespace WriteInvariant

variable {occurrences : List Occurrence} {x x' : Course} {places places' : TaskId → Writing} {e : Occurrence}

theorem oneTask (h : WriteInvariant occurrences x places) (hmove : Writing.placement.Move x places e x' places') :
    Writing.placement.OneTask 0 .elsewhere x places e x' places' :=
  Writing.excludes.oneTask hmove h.others h.old

theorem left (h : WriteInvariant occurrences x places) (result : Result)
    (hf : Writing.Fits (.finish result) (places 0)) :
    ∃ last, places 0 = .stopped last :=
  hf.resolve_right h.books.ne_elsewhere

theorem resumed (h : WriteInvariant occurrences x places) (phase : Phase)
    (hf : Writing.Fits (.resume phase) (places 0)) :
    places 0 = .idle ∧ phase = .writing :=
  hf.resolve_right fun he => h.books.ne_elsewhere he.1

theorem move (h : WriteInvariant occurrences x places) (hmove : Writing.placement.Move x places e x' places') :
    WriteInvariant (occurrences ++ [e]) x' places' := by
  have hone := h.oneTask hmove
  have hpresent := hone.present (fun place => ∃ last, place = .stopped last) h.left h.present
  refine ⟨?_, hone.others h.others, hone.old h.old, hpresent⟩
  have hbooks := h.books
  cases hone with
  | act ht ha hp hn =>
    rw [Function.update_self]
    exact hbooks.after ha hp
  | finish ht hf => exact hbooks.congr rfl rfl rfl rfl id id
  | resume ht hf =>
    obtain ⟨hidle, rfl⟩ := h.resumed _ hf
    rw [hidle] at hbooks
    rw [Function.update_self]
    exact hbooks.congr rfl rfl rfl rfl id id
  | aside ht ha hp hn hown => exact hbooks.aside ha.1 hp
  | still he hm hn hown =>
    exact hbooks.congr rfl hm.outbox (congrArg _ hm.outlet) (congrArg _ hm.outlet) hm.shut hm.state.trans
  | world he =>
    obtain ⟨m, hm, hsame⟩ := happen_of_isWorldly he x
    rw [hm]
    refine hbooks.congr rfl hsame.outbox hsame.written hsame.frames ?_ hsame.state.trans
    rw [hsame.registry]
    exact id

theorem run (hc : x.machine.KeepsRules Writing.placement places) (h : WriteInvariant [] x places)
    (occurrences : List Occurrence) :
    ∃ places, (x.run occurrences).machine.KeepsRules Writing.placement places ∧
      WriteInvariant occurrences (x.run occurrences) places :=
  Placement.run hc h (fun _ _ _ _ _ h hmove => h.move hmove) occurrences fun _ _ => trivial

theorem frames_isPrefix (h : WriteInvariant occurrences x places) : x.machine.outlet.frames <+: handedIn x.history := by
  obtain ⟨dropped, hasked, -⟩ := h.books.account.balance
  have hpre : sends x.machine.outlet.frames <+: entrusted x.history := by
    rw [hasked, List.append_assoc, List.append_assoc]
    exact List.prefix_append _ _
  rw [handedIn_eq, ← frames_sends x.machine.outlet.frames]
  exact hpre.filterMap _

end WriteInvariant

theorem books_blank {x : Course} (hh : x.history = []) (ho : x.machine.outbox = .empty)
    (hl : x.machine.outlet = .empty) : Books x .idle := by
  refine ⟨?_, ?_, ?_, ?_, trivial⟩
  · rw [hh, ho, hl]
    exact ⟨⟨[], rfl, fun _ => rfl⟩, fun _ => rfl, rfl⟩
  · have hnone : ∀ n r, ¬ Tells [] .empty n r := by
      rintro n r (he | ⟨t, hm⟩)
      · cases he
      · exact absurd hm List.not_mem_nil
    rw [hh, ho, hl]
    refine ⟨fun n r h => absurd h (hnone n r), ?_, fun n r h => absurd h (hnone n r), ?_⟩
    · rintro n hn ⟨r, h⟩
      exact absurd h (hnone n r)
    · intro n hn
      exact absurd hn (Nat.not_lt_zero n)
  · rw [hh, hl]
    refine ⟨⟨[], rfl, List.nil_prefix⟩, ?_⟩
    intro frame
    refine iff_of_false ?_ (Option.some_ne_none _).symm
    rintro ⟨t, reason, hm⟩
    exact absurd hm List.not_mem_nil
  · rw [ho]
    rfl

theorem writeInvariant_begin (o : ClientOptions) (files : FileTree) (hasProcess : Bool) :
    WriteInvariant [] (Course.begin o files hasProcess) (Writing.placement.first o) := by
  have hothers : ∀ t, t ≠ 0 → Writing.placement.first o t = .elsewhere := by
    intro t ht
    match t with
    | 0 => exact absurd rfl ht
    | 1 => rfl
    | 2 => rfl
    | _ + 3 => rfl
  have hbegin : ∀ x : Course, x.history = [] → x.machine.outbox = .empty → x.machine.outlet = .empty →
      0 < x.machine.nextTask → x.machine.tasks.get? 0 ≠ none → WriteInvariant [] x (Writing.placement.first o) :=
    fun x hh ho hl hn ht => ⟨books_blank hh ho hl, hothers, hn, fun hnone => absurd hnone ht⟩
  cases hasProcess with
  | false => exact hbegin _ rfl rfl rfl (show 0 < 3 by decide) (Option.some_ne_none _)
  | true => exact hbegin _ rfl rfl rfl (show 0 < 4 by decide) (Option.some_ne_none _)

theorem writeInvariant_run (o : ClientOptions) (files : FileTree) (hasProcess : Bool) (occurrences : List Occurrence) :
    ∃ places, ((Course.begin o files hasProcess).run occurrences).machine.KeepsRules Writing.placement places ∧
      WriteInvariant occurrences ((Course.begin o files hasProcess).run occurrences) places :=
  WriteInvariant.run (keepsRules_begin _ o files hasProcess) (writeInvariant_begin o files hasProcess) occurrences

/-- Whatever happens to a session: what was written is the first of what was handed in. -/
theorem frames_prefix_run (o : ClientOptions) (files : FileTree) (hasProcess : Bool) (occurrences : List Occurrence) :
    ((Course.begin o files hasProcess).run occurrences).machine.outlet.frames <+:
      handedIn ((Course.begin o files hasProcess).run occurrences).history := by
  obtain ⟨_, -, h⟩ := writeInvariant_run o files hasProcess occurrences
  exact h.frames_isPrefix

end Liaison
