import Liaison.Proofs.Session.ReadProgress

/-!
# Frames handled in order

Whatever the server sends, its frames are read in the order of the stream and each of them is handled once, before
the next one is read. The session is ended by the task that reads only after all of them, so that a response that
comes before the end of the stream reaches its caller.
-/

namespace Liaison

/-! ## Coming to rest -/

section

variable {occurrences : List Occurrence} {x : Course} {places : TaskId → Reading}

/-- The task that reads can do what it is about to do, unless nothing more can be read yet. -/
theorem perform_isSome {place : Reading} {a : Action} (ha : place.Allows a) (he : place ≠ .elsewhere)
    (hn : a = .nextFrame → x.machine.inlet.next?.isSome = true) : (x.machine.perform 1 a).isSome = true := by
  cases place with
  | listening =>
    cases ha
    obtain ⟨p, hp⟩ := Option.isSome_iff_exists.mp (hn rfl)
    simp [Machine.perform, hp]
  | holding handling =>
    cases ha
    cases handling <;> rfl
  | ending =>
    obtain ⟨reason, rfl⟩ := ha
    rfl
  | terminating =>
    cases ha
    rfl
  | closed => cases ha
  | elsewhere => exact absurd rfl he

theorem Reading.eq_listening {place : Reading} (h : place.Allows .nextFrame) : place = .listening := by
  cases place with
  | listening => rfl
  | holding handling => cases handling <;> cases h
  | ending =>
    obtain ⟨reason, he⟩ := h
    cases he
  | elsewhere => exact absurd rfl h.1
  | _ => cases h

/-- When the task that reads can do nothing, all that came is read and handled, and if the stream has ended so has
the session. -/
theorem ReadInvariant.rest (h : ReadInvariant occurrences x places) (hc : x.machine.KeepsRules Reading.placement places)
    (hd : .drop 1 ∉ occurrences) (hadv : x.machine.advance 1 = none) :
    (isHungUp occurrences = true ∧ x.Through (arrived occurrences) ∧ x.machine.registry.IsShut ∧
      x.machine.state = .terminated) ∨
    (isHungUp occurrences = false ∧ x.Abreast (arrived occurrences) none ∧
      Frame.next? false x.machine.inlet.unread = none) := by
  have hshows := h.shows
  cases ht : x.machine.tasks.get? 1 with
  | none =>
    have hclosed : places 1 = .closed := (h.present ht).resolve_right hd
    rw [hclosed] at hshows
    exact .inl ⟨h.hungUp ▸ hshows.1.ended, hshows⟩
  | some r =>
    have hkeeps := hc.keeps 1 r ht
    rw [Machine.advance, ht] at hadv
    cases r with
    | done next => cases next <;> cases hadv
    | step a next =>
      obtain ⟨ha, -⟩ := hkeeps
      have hnone : x.machine.perform 1 a = none := Option.map_eq_none_iff.mp hadv
      have hnext : a = .nextFrame ∧ x.machine.inlet.next? = none := by
        by_contra hnot
        have hsome := perform_isSome (x := x) ha h.ne_elsewhere ?_
        · rw [hnone] at hsome
          cases hsome
        · intro e
          rw [Option.isSome_iff_ne_none]
          exact fun hi => hnot ⟨e, hi⟩
      obtain ⟨rfl, hnext⟩ := hnext
      have hlisten : places 1 = .listening := Reading.eq_listening ha
      rw [hlisten] at hshows
      have hread : Frame.next? x.machine.inlet.isEnded x.machine.inlet.unread = none := Option.map_eq_none_iff.mp hnext
      cases hended : x.machine.inlet.isEnded with
      | true =>
        rw [hended] at hread
        cases hread
      | false =>
        rw [hended] at hread
        exact .inr ⟨h.hungUp ▸ hended, hshows, hread⟩

end

/-! ## Turns -/

def Reading.toGo (length : Nat) : Reading → Routine Next → Nat
  | listening, .step _ _ => 4 * length + 5
  | listening, .done _ => 4 * length + 6
  | holding _, _ => 4 * length + 7
  | ending, _ => 4
  | terminating, _ => 3
  | closed, _ => 1
  | elsewhere, _ => 0

def Course.toGo (x : Course) (place : Reading) : Nat :=
  match x.machine.tasks.get? 1 with
  | some r => place.toGo x.machine.inlet.unread.length r
  | none => 0

section

variable {occurrences : List Occurrence} {x : Course} {places : TaskId → Reading}

theorem toGo_le (place : Reading) (length : Nat) (r : Routine Next) : place.toGo length r ≤ 4 * length + 7 := by
  cases place <;> cases r <;> simp [Reading.toGo]

theorem toGo_le_length (x : Course) (place : Reading) : x.toGo place ≤ 4 * x.machine.inlet.unread.length + 7 := by
  rw [Course.toGo]
  split
  · exact toGo_le place _ _
  · exact Nat.zero_le _

theorem toGo_ofEvent_le {e : Frame.Event} (h : e.isLast = true) (length : Nat) (r : Routine Next) :
    (Reading.ofEvent e).toGo length r = 4 := by
  rw [Reading.ofEvent, if_pos h, Reading.toGo]

theorem Reading.toGo_after {place : Reading} {t : TaskId} {a : Action} {answer : a.Answer} {m m' : Machine}
    {next : a.Answer → Routine Next} (ha : place.Allows a) (he : place ≠ .elsewhere)
    (hp : m.perform t a = some (answer, m')) :
    (place.after a answer).toGo m'.inlet.unread.length (next answer) <
      place.toGo m.inlet.unread.length (.step a next) := by
  cases place with
  | listening =>
    -- What is read takes a byte at least, and that pays for handling it.
    cases ha
    obtain ⟨⟨event, inlet⟩, hread, he⟩ := Option.map_eq_some_iff.mp hp
    cases he
    change (ofEvent answer).toGo inlet.unread.length (next answer) < _
    rw [toGo]
    rcases next?_cases hread with ⟨-, -, hlen, -⟩ | ⟨hlast, -, -, -⟩
    · have hle := toGo_le (.ofEvent answer) inlet.unread.length (next answer)
      omega
    · rw [toGo_ofEvent_le hlast]
      omega
  | holding handling =>
    cases ha
    have hm : m'.inlet = m.inlet := by
      cases handling <;> cases hp <;> rfl
    rw [hm]
    change listening.toGo m.inlet.unread.length (next answer) < _
    cases next answer <;> simp [toGo]
  | ending => exact Nat.lt_succ_self _
  | terminating =>
    change closed.toGo m'.inlet.unread.length (next answer) < _
    simp [toGo]
  | closed => cases ha
  | elsewhere => exact absurd rfl he

theorem toGo_step (h : ReadInvariant occurrences x places) (hc : x.machine.KeepsRules Reading.placement places)
    (hadv : x.machine.advance 1 ≠ none) :
    ∃ places', (x.happen (.step 1)).machine.KeepsRules Reading.placement places' ∧
      ReadInvariant (occurrences ++ [.step 1]) (x.happen (.step 1)) places' ∧
      (x.happen (.step 1)).toGo (places' 1) < x.toGo (places 1) := by
  obtain ⟨places', hmove, hc'⟩ := hc.step 1
  refine ⟨places', hc', h.move hmove, ?_⟩
  generalize x.happen (.step 1) = x' at hmove
  cases hmove with
  | @act _ a answer m next ht ha hp =>
    have hlt : ((places 1).after a answer).toGo m.inlet.unread.length (next answer) < _ :=
      Reading.toGo_after ha h.ne_elsewhere hp
    rw [Function.update_self, Course.toGo, Course.toGo, ht, Table.get?_insert, if_pos rfl]
    exact hlt
  | spawn ht ha => exact absurd (Reading.not_spawn ha).1 h.ne_elsewhere
  | @finish _ result ht hf =>
    rw [Course.toGo, Course.toGo, ht, Table.get?_erase, if_pos rfl, h.left result hf]
    simp [Reading.toGo]
  | @resume _ phase ht hf =>
    obtain ⟨hlisten, rfl⟩ := h.resumed phase hf
    rw [Function.update_self, Course.toGo, Course.toGo, ht, Table.get?_insert, if_pos rfl, hlisten]
    exact Nat.lt_succ_self _
  | wait hw => exact absurd hw hadv
  | world he => cases he

/-- The task that reads comes to rest after so many steps, if it takes them. -/
theorem exists_turns (h : ReadInvariant occurrences x places) (hc : x.machine.KeepsRules Reading.placement places) :
    ∃ n ≤ x.toGo (places 1), (x.run (List.replicate n (.step 1))).machine.advance 1 = none := by
  obtain ⟨n, hn, _, -, -, hrest⟩ := Placement.exists_rest toGo_step h hc
  exact ⟨n, hn, hrest⟩

end

/-! ## What became of a call -/

def Handling.replyTo? (id : Nat) : Handling → Option Reply
  | reply i r => if i = id then some r else none
  | forward _ => none

theorem standing_append_of_waiting {id : Nat} {before : History} (hw : standing id before = .waiting)
    (after : History) : standing id (before ++ after) =
      match after.findSome? fun d => d.action.settles? id with
      | some s => .settled s
      | none => .waiting := by
  induction after using List.reverseRecOn with
  | nil => simpa using hw
  | append_singleton after d ih =>
    rw [← List.append_assoc, standing_concat, ih, List.findSome?_append]
    cases after.findSome? fun d => d.action.settles? id with
    | some s => rfl
    | none =>
      rw [Standing.after]
      cases hs : d.action.settles? id <;> simp [hs]

theorem replyTo?_eq_none {d : Deed} {id : Nat} (h : d.action.settles? id = none) :
    d.handling?.bind (Handling.replyTo? id) = none := by
  obtain ⟨t, a, answer⟩ := d
  cases a with
  | fulfill i reply =>
    have hne : i ≠ id := by simpa [Action.settles?] using h
    simp [Deed.handling?, Handling.replyTo?, hne]
  | forward inbound => rfl
  | _ => rfl

theorem handlings_append (h h' : History) : handlings (h ++ h') = handlings h ++ handlings h' :=
  List.filterMap_append

theorem findSome?_replyTo? (h : History) (id : Nat) : (handlings h).findSome? (Handling.replyTo? id) =
    h.findSome? fun d => d.handling?.bind (Handling.replyTo? id) := by
  rw [← List.head?_filterMap, handlings, List.filterMap_filterMap, List.head?_filterMap]

theorem replyTo?_of_unsettled {h : History} {id : Nat} (hs : ∀ d ∈ h, d.action.settles? id = none) :
    (handlings h).findSome? (Handling.replyTo? id) = none := by
  rw [findSome?_replyTo?, List.findSome?_eq_none_iff]
  intro d hd
  exact replyTo?_eq_none (hs d hd)

/-- If the task that reads settles a call, it does so with a reply or because the stream is over. -/
theorem settles?_of_own {d : Deed} {id : Nat} {s : Settlement} (hs : d.action.settles? id = some s)
    (hd : d.action.service? = some .reader ∨ d.IsFinal) :
    (∃ reply, s = .answered reply ∧ d.handling? = some (.reply id reply)) ∨ d.IsFinal := by
  rcases hd with hd | hd
  · left
    obtain ⟨t, a, answer⟩ := d
    cases a with
    | fulfill i reply =>
      obtain ⟨rfl, rfl⟩ : i = id ∧ .answered reply = s := by simpa [Action.settles?] using hs
      exact ⟨reply, rfl, rfl⟩
    | nextFrame | forward _ => cases hs
    | _ => cases hd
  · exact .inr hd

/-! ## All that was received -/

/-- The call gets the reply and no other: it waits until the reply is handled, and then the reply waits for whoever
asks for it. -/
structure Course.Answers (x : Course) (id : Nat) (reply : Reply) : Prop where
  known : standing id x.history = .waiting ∨ standing id x.history = .settled (.answered reply)
  given : ∀ d ∈ x.history, ∀ r, d.given? id = some r → r = reply
  served : standing id x.history = .settled (.answered reply) → ∀ t limit next,
    x.machine.tasks.get? t = some (.step (.awaitReply id limit) next) →
      (x.machine.perform t (.awaitReply id limit)).map Prod.fst = some (some reply)

/-- The task that reads was there to the end of the stream, and has nothing left to do. -/
def Course.IsReadOut (x : Course) (occurrences : List Occurrence) : Prop :=
  isHungUp occurrences = true ∧ .drop 1 ∉ occurrences ∧ x.machine.advance 1 = none

/-- Frames are read in the order of the stream, and each is handled once, before the next one is read. What is
handed on stands in line. The session is closed by the task that reads when all has been handled, and not before. -/
structure Course.HandlesFrames (x : Course) (occurrences : List Occurrence) : Prop where
  inOrder : ∀ more, (isHungUp occurrences = true → more = []) →
    readings x.history <+: Frame.readAll (arrived occurrences ++ more)
  once : ∃ inHand : Option Handling,
    (readings x.history).filterMap Frame.Event.handling? = handlings x.history ++ inHand.toList ∧
      ∀ handling, inHand = some handling →
        (∃ next, x.machine.tasks.get? 1 = some (.step handling.action next)) ∨ .drop 1 ∈ occurrences
  queued : (handlings x.history).filterMap Handling.inbound? = takings x.history ++ x.machine.inbound
  closing : ∀ before d, before ++ [d] <+: x.history → d.task = 1 → d.IsFinal →
    isHungUp occurrences = true ∧ readings before = Frame.readAll (arrived occurrences) ∧
      handlings before = (Frame.readAll (arrived occurrences)).filterMap Frame.Event.handling?
  abreast : isHungUp occurrences = false → .drop 1 ∉ occurrences → x.machine.advance 1 = none →
    Frame.next? false x.machine.inlet.unread = none ∧
      (readings x.history).filterMap Frame.Event.handling? = handlings x.history ∧
      ∀ more, Frame.readAll (arrived occurrences ++ more) =
        readings x.history ++ Frame.readAll (x.machine.inlet.unread ++ more)
  through : x.IsReadOut occurrences → readings x.history = Frame.readAll (arrived occurrences) ∧
    handlings x.history = (Frame.readAll (arrived occurrences)).filterMap Frame.Event.handling? ∧
    x.machine.registry.IsShut ∧ x.machine.state = .terminated
  answered : ∀ before after id reply more, x.history = before ++ after → standing id before = .waiting →
    (∀ d ∈ after, d.action.settles? id ≠ none → d.task = 1) → (isHungUp occurrences = true → more = []) →
    (((Frame.readAll (arrived occurrences ++ more)).filterMap Frame.Event.handling?).drop
      (handlings before).length).findSome? (Handling.replyTo? id) = some reply →
    x.Answers id reply ∧ (x.IsReadOut occurrences → standing id x.history = .settled (.answered reply))

section

variable {occurrences : List Occurrence} {x : Course} {places : TaskId → Reading}

namespace ReadInvariant

/-- Reading goes on or is over, and what was read but not handled is in the hands of the task that reads. -/
theorem abreast_or_through (h : ReadInvariant occurrences x places) :
    (∃ inHand : Option Handling, x.Abreast (arrived occurrences) inHand ∧
      ∀ handling, inHand = some handling → places 1 = .holding handling) ∨ x.Through (arrived occurrences) := by
  have hshows := h.shows
  generalize places 1 = place at hshows ⊢
  cases place with
  | listening => exact .inl ⟨none, hshows, by simp⟩
  | holding handling => exact .inl ⟨some handling, hshows, by simp⟩
  | ending => exact .inr hshows
  | terminating => exact .inr hshows.1
  | closed => exact .inr hshows.1
  | elsewhere => exact hshows.elim

theorem isEnded_iff (h : ReadInvariant occurrences x places) {more : Bytes}
    (hmore : isHungUp occurrences = true → more = []) : x.machine.inlet.isEnded = true → more = [] := by
  rwa [h.hungUp]

theorem readings_isPrefix (h : ReadInvariant occurrences x places) {more : Bytes}
    (hmore : isHungUp occurrences = true → more = []) :
    readings x.history <+: Frame.readAll (arrived occurrences ++ more) := by
  rcases h.abreast_or_through with ⟨inHand, hx, -⟩ | hx
  · rw [hx.stream more (h.isEnded_iff hmore)]
    exact List.prefix_append _ _
  · have hall : readings x.history = Frame.readAll (arrived occurrences ++ more) := by
      rw [hmore (h.hungUp ▸ hx.ended), List.append_nil, hx.stream]
    exact hall ▸ List.prefix_rfl

theorem handlings_isPrefix (h : ReadInvariant occurrences x places) {more : Bytes}
    (hmore : isHungUp occurrences = true → more = []) : handlings x.history <+:
      (Frame.readAll (arrived occurrences ++ more)).filterMap Frame.Event.handling? := by
  have hread := (h.readings_isPrefix hmore).filterMap Frame.Event.handling?
  rcases h.abreast_or_through with ⟨inHand, hx, -⟩ | hx
  · rw [hx.handled] at hread
    exact (List.prefix_append _ _).trans hread
  · rwa [hx.handled] at hread

theorem once (h : ReadInvariant occurrences x places) (hc : x.machine.KeepsRules Reading.placement places) :
    ∃ inHand : Option Handling,
      (readings x.history).filterMap Frame.Event.handling? = handlings x.history ++ inHand.toList ∧
        ∀ handling, inHand = some handling →
          (∃ next, x.machine.tasks.get? 1 = some (.step handling.action next)) ∨ .drop 1 ∈ occurrences := by
  rcases h.abreast_or_through with ⟨inHand, hx, hheld⟩ | hx
  · refine ⟨inHand, hx.handled, ?_⟩
    intro handling hhand
    have hplace := hheld handling hhand
    cases ht : x.machine.tasks.get? 1 with
    | none =>
      refine .inr ((h.present ht).resolve_left ?_)
      rw [hplace]
      exact Reading.noConfusion
    | some r =>
      have hkeeps := hc.keeps 1 r ht
      rw [hplace] at hkeeps
      cases r with
      | step a next =>
        obtain ⟨rfl, -⟩ := hkeeps
        exact .inl ⟨next, rfl⟩
      | done next => cases next <;> simp [Routine.Keeps, Reading.placement, Reading.Fits] at hkeeps
  · exact ⟨none, by simpa using hx.handled, by simp⟩

/-- The session is closed by the task that reads only when all has been handled. -/
theorem closing (h : ReadInvariant occurrences x places) {before : History} {d : Deed}
    (hb : before ++ [d] <+: x.history) (ht : d.task = 1) (hd : d.IsFinal) : isHungUp occurrences = true ∧
      readings before = Frame.readAll (arrived occurrences) ∧
        handlings before = (Frame.readAll (arrived occurrences)).filterMap Frame.Event.handling? := by
  rcases h.abreast_or_through with ⟨inHand, hx, -⟩ | hx
  · exact absurd hd (hx.goesOn d (mem_of_isPrefix hb) ht)
  · obtain ⟨hread, hdone⟩ := hx.final before d hb ht hd
    refine ⟨h.hungUp ▸ hx.ended, hread.trans hx.stream, ?_⟩
    rw [hdone, ← hx.handled, hx.stream]

/-- A call waits for a reply that is to come, until the reply is handled. -/
theorem standing_eq (h : ReadInvariant occurrences x places) {before after : History} {id : Nat} {reply : Reply}
    {more : Bytes} (hh : x.history = before ++ after) (hw : standing id before = .waiting)
    (hother : ∀ d ∈ after, d.action.settles? id ≠ none → d.task = 1)
    (hmore : isHungUp occurrences = true → more = [])
    (hreply : (((Frame.readAll (arrived occurrences ++ more)).filterMap Frame.Event.handling?).drop
      (handlings before).length).findSome? (Handling.replyTo? id) = some reply) :
    standing id x.history = .settled (.answered reply) ∨
      (standing id x.history = .waiting ∧ (handlings after).findSome? (Handling.replyTo? id) = none) := by
  obtain ⟨rest, hrest⟩ := h.handlings_isPrefix hmore
  rw [hh, handlings_append, List.append_assoc] at hrest
  rw [← hrest, List.drop_left] at hreply
  rw [hh, standing_append_of_waiting hw]
  -- The first deed that settles the call is one of the task that reads: either it brings the first reply, or it
  -- comes when everything has been handled, and then there was no reply.
  cases hs : after.findSome? fun d => d.action.settles? id with
  | none =>
    refine .inr ⟨rfl, replyTo?_of_unsettled ?_⟩
    exact List.findSome?_eq_none_iff.mp hs
  | some s =>
    left
    obtain ⟨first, d, later, rfl, hd, hfirst⟩ := List.findSome?_eq_some_iff.mp hs
    have hmem : d ∈ first ++ d :: later := by simp
    have htask : d.task = 1 := hother d hmem (by simp [hd])
    have hnone := replyTo?_of_unsettled hfirst
    have hown := h.own d (hh ▸ List.mem_append_right _ hmem) htask
    rcases settles?_of_own hd hown with ⟨r, rfl, hhand⟩ | hfinal
    · have hfound : (handlings (first ++ d :: later)).findSome? (Handling.replyTo? id) = some r := by
        rw [findSome?_replyTo?, List.findSome?_append, ← findSome?_replyTo?, hnone]
        simp [hhand, Handling.replyTo?]
      rw [List.findSome?_append, hfound] at hreply
      cases hreply
      rfl
    · have hprefix : (before ++ first) ++ [d] <+: x.history := ⟨later, by simp [hh]⟩
      obtain ⟨hend, -, hdone⟩ := h.closing hprefix htask hfinal
      rw [hmore hend, List.append_nil, ← hdone, handlings_append before first] at hrest
      rw [List.append_cancel_left hrest, hnone] at hreply
      cases hreply

theorem through (h : ReadInvariant occurrences x places) (hc : x.machine.KeepsRules Reading.placement places)
    (ho : x.IsReadOut occurrences) : x.Through (arrived occurrences) ∧ x.machine.registry.IsShut ∧
      x.machine.state = .terminated := by
  obtain ⟨hend, hdrop, hadv⟩ := ho
  rcases h.rest hc hdrop hadv with ⟨-, hx⟩ | ⟨hopen, -⟩
  · exact hx
  · rw [hend] at hopen
    cases hopen

end ReadInvariant

theorem Course.Recollects.answers {k : Conducts} (hx : x.Recollects k) (hd : x.machine.Disciplined k) {id : Nat}
    {reply : Reply} (hs : standing id x.history = .waiting ∨ standing id x.history = .settled (.answered reply)) :
    x.Answers id reply := by
  refine ⟨hs, ?_, ?_⟩
  · intro d hmem r hg
    obtain ⟨s, hsettled, hr⟩ := hx.given d hmem id r hg
    rcases hs with hs | hs
    · rw [hs] at hsettled
      cases hsettled
    · rw [hs] at hsettled
      cases hsettled
      cases hr
      rfl
  · intro hsettled t limit next ht
    have hhold : (k t).hold = .call id := (hd.obeys t _ ht).1
    have hfound : (x.machine.registry.settled.get? id).isSome = true := by
      refine (hx.held.served t id hhold).resolve_left ?_
      intro hpending
      rw [hx.recalls.pending id hpending] at hsettled
      cases hsettled
    obtain ⟨r, hr⟩ := Option.isSome_iff_exists.mp hfound
    obtain ⟨s, hs', hrep⟩ := hx.recalls.settled id r hr
    rw [hsettled] at hs'
    cases hs'
    cases hrep
    rw [Machine.perform, Machine.awaitReply, Registry.collect?, hr]
    rfl

theorem ReadInvariant.handlesFrames (h : ReadInvariant occurrences x places)
    (hc : x.machine.KeepsRules Reading.placement places) {k : Conducts} (hd : x.machine.Disciplined k)
    (hx : x.Recollects k) : x.HandlesFrames occurrences where
  inOrder _ hmore := h.readings_isPrefix hmore
  once := h.once hc
  queued := h.queue
  closing _ _ hb ht hd := h.closing hb ht hd
  abreast hopen hdrop hadv := by
    rcases h.rest hc hdrop hadv with ⟨hend, -⟩ | ⟨-, hx, hnext⟩
    · rw [hend] at hopen
      cases hopen
    · have hgoes : x.machine.inlet.isEnded = false := h.hungUp.trans hopen
      refine ⟨hnext, by simpa using hx.handled, ?_⟩
      intro more
      apply hx.stream
      intro hended
      rw [hgoes] at hended
      cases hended
  through ho := by
    obtain ⟨hx, hover⟩ := h.through hc ho
    exact ⟨hx.stream, by rw [← hx.handled, hx.stream], hover⟩
  answered before after id reply more hh hw hother hmore hreply := by
    have hstanding := h.standing_eq hh hw hother hmore hreply
    refine ⟨hx.answers hd (hstanding.elim .inr fun hwait => .inl hwait.1), ?_⟩
    intro ho
    refine hstanding.resolve_right ?_
    rintro ⟨-, hnone⟩
    obtain ⟨hthrough, -⟩ := h.through hc ho
    rw [hmore ho.1, List.append_nil, ← hthrough.stream, hthrough.handled, hh, handlings_append, List.drop_left,
      hnone] at hreply
    cases hreply

end

/-- Whatever happens to a session, and whatever its server sends: what was received is attended to, and the task that
reads needs only some more steps until it has handled all that can be read. -/
theorem received_frames_handled_in_order (o : ClientOptions) (files : FileTree) (hasProcess : Bool)
    (occurrences : List Occurrence) :
    let x := (Course.begin o files hasProcess).run occurrences
    x.HandlesFrames occurrences ∧ ∃ n ≤ 4 * x.machine.inlet.unread.length + 7,
      (x.run (List.replicate n (.step 1))).machine.advance 1 = none := by
  obtain ⟨places, hc, h⟩ := readInvariant_run o files hasProcess occurrences
  obtain ⟨k, hd, hx⟩ := recollects_run o files hasProcess occurrences
  refine ⟨h.handlesFrames hc hd hx, ?_⟩
  obtain ⟨n, hn, hrest⟩ := exists_turns h hc
  exact ⟨n, hn.trans (toGo_le_length _ _), hrest⟩

/-- A response that comes with the last bytes of the stream reaches its caller all the same. -/
example :
    let x := (Course.begin ⟨"rust", "rust", [0x2F, 0x77], none, 1, 1, .null⟩ ⟨[], []⟩ false).run
      ([.start (.call "sum" none none)] ++ List.replicate 5 (.step 3) ++ List.replicate 4 (.step 0) ++ [.step 3] ++
        [.receive (Frame.write (.obj [("id", .int 1), ("result", .int 5)])), .hangUp] ++ List.replicate 7 (.step 1) ++
        List.replicate 2 (.step 3))
    x.machine.state = .terminated ∧ (x.machine.advance 1).isNone = true ∧
      (x.machine.results.get? 3).map (Except.map Finding.toJson) = some (.ok (.int 5)) := by
  decide +kernel

end Liaison
