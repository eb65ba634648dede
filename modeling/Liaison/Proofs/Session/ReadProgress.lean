import Liaison.Proofs.Frame.Stream
import Liaison.Proofs.Session.Reading
import Liaison.Proofs.Session.Recall
import Liaison.Proofs.Session.OneTask
import Liaison.Proofs.Session.Streams

/-!
# What the reader has read

Whatever happens to a session, the task that reads keeps abreast of the stream: what came is what it has read and
what is unread, and of what it has read it has handled all but what it has in hand. When it ends the session, it
has come through.
-/

namespace Liaison

/-! ## What was read and done -/

def Deed.reading? : Deed → Option Frame.Event
  | ⟨_, .nextFrame, event⟩ => some event
  | _ => none

def Deed.handling? : Deed → Option Handling
  | ⟨_, .fulfill id reply, _⟩ => some (.reply id reply)
  | ⟨_, .forward inbound, _⟩ => some (.forward inbound)
  | _ => none

def Deed.taking? : Deed → Option Inbound
  | ⟨_, .nextInbound, inbound⟩ => some inbound
  | _ => none

def Deed.IsFinal (d : Deed) : Prop :=
  d.action = .terminate ∨ ∃ reason, d.action = .closeCalls reason

def readings (h : History) : List Frame.Event :=
  h.filterMap Deed.reading?

def handlings (h : History) : List Handling :=
  h.filterMap Deed.handling?

def takings (h : History) : List Inbound :=
  h.filterMap Deed.taking?

theorem readings_concat (h : History) (d : Deed) : readings (h ++ [d]) = readings h ++ d.reading?.toList :=
  filterMap_concat _ h d

theorem handlings_concat (h : History) (d : Deed) : handlings (h ++ [d]) = handlings h ++ d.handling?.toList :=
  filterMap_concat _ h d

theorem takings_concat (h : History) (d : Deed) : takings (h ++ [d]) = takings h ++ d.taking?.toList :=
  filterMap_concat _ h d

/-! ## What came -/

def arrived : List Occurrence → Bytes
  | [] => []
  | .hangUp :: _ => []
  | .receive bytes :: rest => bytes ++ arrived rest
  | _ :: rest => arrived rest

def isHungUp : List Occurrence → Bool
  | [] => false
  | .hangUp :: _ => true
  | _ :: rest => isHungUp rest

theorem isHungUp_concat (occurrences : List Occurrence) (e : Occurrence) :
    isHungUp (occurrences ++ [e]) = (isHungUp occurrences || isHungUp [e]) := by
  induction occurrences with
  | nil => simp [isHungUp]
  | cons f rest ih => cases f <;> simp [isHungUp, ih]

theorem arrived_concat (occurrences : List Occurrence) (e : Occurrence) :
    arrived (occurrences ++ [e]) = arrived occurrences ++ bif isHungUp occurrences then [] else arrived [e] := by
  induction occurrences with
  | nil => simp [arrived, isHungUp]
  | cons f rest ih => cases f <;> simp [arrived, isHungUp, ih]

/-! ## What actions do to the streams -/

section

variable {m m' : Machine} {t : TaskId} {a : Action} {answer : a.Answer}

theorem isEnded_perform (hp : m.perform t a = some (answer, m')) : m'.inlet.isEnded = m.inlet.isEnded := by
  by_cases hn : a = .nextFrame
  · subst hn
    obtain ⟨⟨event, inlet⟩, hnext, he⟩ := Option.map_eq_some_iff.mp hp
    cases he
    obtain ⟨_, _, he⟩ := Option.map_eq_some_iff.mp hnext
    cases he
    rfl
  · have hs : a.stream? ≠ some .inlet := by
      cases a with
      | nextFrame => exact absurd rfl hn
      | _ => simp [Action.stream?]
    rw [(streams_perform hp).inlet hs]

/-- What is handed on stands in line behind what was handed on before, until it is taken. -/
theorem inbound_perform (hp : m.perform t a = some (answer, m')) :
    m.inbound ++ ((Deed.handling? ⟨t, a, answer⟩).bind Handling.inbound?).toList =
      (Deed.taking? ⟨t, a, answer⟩).toList ++ m'.inbound := by
  cases a with
  | forward inbound =>
    cases hp
    rfl
  | nextInbound =>
    simp only [Machine.perform] at hp
    split at hp
    · rename_i inbound rest he
      cases hp
      simp [Deed.handling?, Deed.taking?, he]
    · cases hp
  | fulfill id reply =>
    cases hp
    simp [Deed.handling?, Deed.taking?, Handling.inbound?]
  | _ =>
    rw [(streams_perform hp).inbound (by simp [Action.stream?])]
    simp [Deed.handling?, Deed.taking?]

/-- What is handed on goes to the end of the line, and what is taken is the first in it. -/
theorem line_perform (first : List Inbound) {h : History}
    (hq : first ++ (handlings h).filterMap Handling.inbound? = takings h ++ m.inbound)
    (hp : m.perform t a = some (answer, m')) :
    first ++ (handlings (h ++ [⟨t, a, answer⟩])).filterMap Handling.inbound? =
      takings (h ++ [⟨t, a, answer⟩]) ++ m'.inbound := by
  have hstep := inbound_perform hp
  rw [handlings_concat, takings_concat, List.filterMap_append, ← List.append_assoc, hq, List.append_assoc,
    List.append_assoc, ← hstep]
  cases Deed.handling? ⟨t, a, answer⟩ with
  | none => simp
  | some handling => cases hi : handling.inbound? <;> simp [hi]

end

/-! ## How far reading has come -/

/-- Reading goes on. What came is what was read and what is unread, and of what was read only what is in hand is not
handled yet. -/
structure Course.Abreast (x : Course) (came : Bytes) (inHand : Option Handling) : Prop where
  stream : ∀ more, (x.machine.inlet.isEnded = true → more = []) →
    Frame.readAll (came ++ more) = readings x.history ++ Frame.readAll (x.machine.inlet.unread ++ more)
  handled : (readings x.history).filterMap Frame.Event.handling? = handlings x.history ++ inHand.toList
  goesOn : ∀ d ∈ x.history, d.task = 1 → ¬ d.IsFinal

/-- Reading is over. All that came was read and handled, and only then was the session ended for it. -/
structure Course.Through (x : Course) (came : Bytes) : Prop where
  ended : x.machine.inlet.isEnded = true
  stream : readings x.history = Frame.readAll came
  handled : (readings x.history).filterMap Frame.Event.handling? = handlings x.history
  final : ∀ before d, before ++ [d] <+: x.history → d.task = 1 → d.IsFinal →
    readings before = readings x.history ∧ handlings before = handlings x.history

namespace Reading

def Shows (x : Course) (came : Bytes) : Reading → Prop
  | listening => x.Abreast came none
  | holding handling => x.Abreast came (some handling)
  | ending => x.Through came
  | terminating => x.Through came ∧ x.machine.registry.IsShut
  | closed => x.Through came ∧ x.machine.registry.IsShut ∧ x.machine.state = .terminated
  | elsewhere => False

end Reading

structure Course.Aside (x x' : Course) : Prop where
  inlet : x'.machine.inlet = x.machine.inlet
  shut : x.machine.registry.IsShut → x'.machine.registry.IsShut
  terminated : x.machine.state = .terminated → x'.machine.state = .terminated
  readings : Liaison.readings x'.history = Liaison.readings x.history
  handlings : Liaison.handlings x'.history = Liaison.handlings x.history
  deeds : ∀ before d, before ++ [d] <+: x'.history → d.task = 1 → before ++ [d] <+: x.history

section

variable {x x' : Course} {came : Bytes} {inHand : Option Handling}

theorem Course.Aside.abreast (h : x.Aside x') (hx : x.Abreast came inHand) : x'.Abreast came inHand := by
  refine ⟨?_, ?_, ?_⟩
  · rw [h.inlet, h.readings]
    exact hx.stream
  · rw [h.readings, h.handlings]
    exact hx.handled
  · intro d hd ht
    obtain ⟨before, hb⟩ := exists_isPrefix hd
    exact hx.goesOn d (mem_of_isPrefix (h.deeds before d hb ht)) ht

theorem Course.Aside.through (h : x.Aside x') (hx : x.Through came) : x'.Through came := by
  refine ⟨?_, ?_, ?_, ?_⟩
  · rw [h.inlet]
    exact hx.ended
  · rw [h.readings]
    exact hx.stream
  · rw [h.readings, h.handlings]
    exact hx.handled
  · intro before d hb ht hd
    rw [h.readings, h.handlings]
    exact hx.final before d (h.deeds before d hb ht) ht hd

theorem Course.Aside.shows (h : x.Aside x') {place : Reading} (hx : place.Shows x came) : place.Shows x' came := by
  cases place with
  | listening => exact h.abreast hx
  | holding handling => exact h.abreast hx
  | ending => exact h.through hx
  | terminating => exact ⟨h.through hx.1, h.shut hx.2⟩
  | closed => exact ⟨h.through hx.1, h.shut hx.2.1, h.terminated hx.2.2⟩
  | elsewhere => exact hx

theorem aside_of_history (hh : x'.history = x.history) (hi : x'.machine.inlet = x.machine.inlet)
    (hs : x.machine.registry.IsShut → x'.machine.registry.IsShut)
    (ht : x.machine.state = .terminated → x'.machine.state = .terminated) : x.Aside x' := by
  refine ⟨hi, hs, ht, ?_, ?_, ?_⟩
  · rw [hh]
  · rw [hh]
  · intro before d hb _
    rwa [← hh]

theorem aside_of_deed {d : Deed} (hh : x'.history = x.history ++ [d]) (hd : d.task ≠ 1)
    (hs : d.action.service? ≠ some .reader) {m : Machine} (hp : x.machine.perform d.task d.action = some (d.answer, m))
    (hi : x'.machine.inlet = m.inlet) (hr : x'.machine.registry = m.registry) (ht : x'.machine.state = m.state) :
    x.Aside x' := by
  obtain ⟨t, a, answer⟩ := d
  have hreading : Deed.reading? ⟨t, a, answer⟩ = none := by
    cases a with
    | nextFrame => exact absurd rfl hs
    | _ => rfl
  have hhandling : Deed.handling? ⟨t, a, answer⟩ = none := by
    cases a with
    | fulfill id reply => exact absurd rfl hs
    | forward inbound => exact absurd rfl hs
    | _ => rfl
  refine ⟨?_, ?_, ?_, ?_, ?_, ?_⟩
  · rw [hi]
    apply (streams_perform hp).inlet
    cases a with
    | nextFrame => exact absurd rfl hs
    | _ => simp [Action.stream?]
  · rw [hr]
    exact (carries_perform hp).shut
  · rw [ht]
    exact terminated_perform hp
  · rw [hh, readings_concat, hreading, Option.toList_none, List.append_nil]
  · rw [hh, handlings_concat, hhandling, Option.toList_none, List.append_nil]
  · intro before e hb he
    rw [hh, List.prefix_concat_iff] at hb
    rcases hb with hb | hb
    · obtain ⟨-, hde⟩ := List.append_inj' hb rfl
      cases hde
      exact absurd he hd
    · exact hb

/-! ### What the server does -/

theorem Course.Abreast.receive (hx : x.Abreast came inHand) (he : x.machine.inlet.isEnded = false) (bytes : Bytes)
    {m : Machine} (hm : m.inlet = { x.machine.inlet with unread := x.machine.inlet.unread ++ bytes }) :
    (⟨m, x.history⟩ : Course).Abreast (came ++ bytes) inHand := by
  refine ⟨?_, hx.handled, hx.goesOn⟩
  intro more _
  have hstream := hx.stream (bytes ++ more) fun h => by rw [he] at h; cases h
  simp only [hm]
  rwa [List.append_assoc, List.append_assoc]

theorem Course.Abreast.hangUp (hx : x.Abreast came inHand) {m : Machine}
    (hm : m.inlet = { x.machine.inlet with isEnded := true }) : (⟨m, x.history⟩ : Course).Abreast came inHand := by
  refine ⟨?_, hx.handled, hx.goesOn⟩
  intro more hmore
  simp only [hm, forall_const] at hmore
  simp only [hm, hmore]
  exact hx.stream [] fun _ => rfl

theorem Course.Through.hangUp (hx : x.Through came) {m : Machine}
    (hm : m.inlet = { x.machine.inlet with isEnded := true }) : (⟨m, x.history⟩ : Course).Through came :=
  ⟨by simp [hm], hx.stream, hx.handled, hx.final⟩

theorem shows_receive {place : Reading} (h : place.Shows x came) (he : x.machine.inlet.isEnded = false)
    (bytes : Bytes) : place.Shows
      ⟨{ x.machine with inlet := { x.machine.inlet with unread := x.machine.inlet.unread ++ bytes } }, x.history⟩
      (came ++ bytes) := by
  have hnot : ¬ x.Through came := fun hx => by
    rw [hx.ended] at he
    cases he
  cases place with
  | listening => exact Course.Abreast.receive h he bytes rfl
  | holding handling => exact Course.Abreast.receive h he bytes rfl
  | ending => exact absurd h hnot
  | terminating => exact absurd h.1 hnot
  | closed => exact absurd h.1 hnot
  | elsewhere => exact h

theorem shows_hangUp {place : Reading} (h : place.Shows x came) :
    place.Shows ⟨{ x.machine with inlet := { x.machine.inlet with isEnded := true } }, x.history⟩ came := by
  cases place with
  | listening => exact Course.Abreast.hangUp h rfl
  | holding handling => exact Course.Abreast.hangUp h rfl
  | ending => exact Course.Through.hangUp h rfl
  | terminating => exact ⟨Course.Through.hangUp h.1 rfl, h.2⟩
  | closed => exact ⟨Course.Through.hangUp h.1 rfl, h.2⟩
  | elsewhere => exact h

/-! ### The task that reads -/

theorem handling?_of_isLast {e : Frame.Event} (h : e.isLast = true) : e.handling? = none := by
  cases e with
  | ended => rfl
  | fault cut => rfl
  | frame v => cases h
  | malformed flaw => cases h

/-- What is read is the first event of what is unread, and the last one only if the stream has ended. -/
theorem next?_cases {i i' : Inlet} {e : Frame.Event} (h : i.next? = some (e, i')) :
    (e.isLast = false ∧ i'.isEnded = i.isEnded ∧ i'.unread.length < i.unread.length ∧
      ∀ more, (i.isEnded = true → more = []) →
        Frame.readAll (i.unread ++ more) = e :: Frame.readAll (i'.unread ++ more)) ∨
    (e.isLast = true ∧ i.isEnded = true ∧ i'.isEnded = true ∧ Frame.readAll i.unread = [e]) := by
  obtain ⟨⟨event, rest⟩, hnext, he⟩ := Option.map_eq_some_iff.mp h
  cases he
  have hread : Frame.read i.unread = (e, rest) := by
    rw [Frame.next?] at hnext
    split at hnext
    · cases hnext
    · exact Option.some.inj hnext
  have hshorter : e.isLast = false → rest.length < i.unread.length := by
    intro hlast
    have hlen := @Frame.length_read i.unread (by rw [hread]; exact hlast)
    rwa [hread] at hlen
  -- Once the stream has ended nothing comes behind what is unread. Before that, a frame is read only when it is
  -- all there, and then it is the same whatever comes.
  by_cases hended : i.isEnded = true
  · by_cases hlast : e.isLast = true
    · have hall := @Frame.readAll_of_isLast i.unread (by rw [hread]; exact hlast)
      rw [hread] at hall
      exact .inr ⟨hlast, hended, hended, hall⟩
    · rw [Bool.not_eq_true] at hlast
      refine .inl ⟨hlast, rfl, hshorter hlast, ?_⟩
      intro more hmore
      rw [hmore hended, List.append_nil, List.append_nil]
      exact Frame.readAll_of_read hread hlast
  · rw [Bool.not_eq_true] at hended
    rw [hended] at hnext
    have hlast := (Frame.read_append hnext []).2
    exact .inl ⟨hlast, rfl, hshorter hlast, fun more _ => Frame.readAll_next hnext more⟩

theorem Course.Abreast.read (hx : x.Abreast came none) {e : Frame.Event} {i : Inlet} {m : Machine}
    (hi : x.machine.inlet.next? = some (e, i)) (hm : m.inlet = i) :
    (Reading.ofEvent e).Shows ⟨m, x.history ++ [⟨1, .nextFrame, e⟩]⟩ came := by
  have hread : readings (x.history ++ [⟨1, .nextFrame, e⟩]) = readings x.history ++ [e] := readings_concat _ _
  have hdone : handlings (x.history ++ [⟨1, .nextFrame, e⟩]) = handlings x.history := by
    rw [handlings_concat]
    exact List.append_nil _
  have hhandled : (readings x.history ++ [e]).filterMap Frame.Event.handling? =
      handlings x.history ++ e.handling?.toList := by
    rw [filterMap_concat, hx.handled]
    simp
  have hopen : ∀ d ∈ x.history ++ [⟨1, .nextFrame, e⟩], d.task = 1 → ¬ d.IsFinal := by
    intro d hd ht
    rcases List.mem_append.mp hd with hd | hd
    · exact hx.goesOn d hd ht
    · rw [List.mem_singleton.mp hd]
      simp [Deed.IsFinal]
  rcases next?_cases hi with ⟨hlast, hended, -, hall⟩ | ⟨hlast, -, hended, hall⟩
  · have habreast : (⟨m, x.history ++ [⟨1, .nextFrame, e⟩]⟩ : Course).Abreast came e.handling? := by
      refine ⟨?_, ?_, hopen⟩
      · intro more hmore
        simp only [hm, hended] at hmore
        simp only [hm, hread]
        rw [hx.stream more hmore, hall more hmore]
        simp
      · simp only [hread, hdone]
        exact hhandled
    rw [Reading.ofEvent, hlast, if_neg Bool.false_ne_true]
    split
    all_goals
      rename_i hh
      rw [hh] at habreast
      exact habreast
  · rw [Reading.ofEvent, if_pos hlast]
    refine ⟨?_, ?_, ?_, ?_⟩
    · simp only [hm]
      exact hended
    · have hstream := hx.stream [] fun _ => rfl
      rw [List.append_nil, List.append_nil, hall] at hstream
      simp only [hread]
      exact hstream.symm
    · simp only [hread, hdone]
      rw [hhandled, handling?_of_isLast hlast]
      exact List.append_nil _
    · intro before d hb ht hd
      exact absurd hd (hopen d (mem_of_isPrefix hb) ht)

theorem Course.Abreast.handle {handling : Handling} (hx : x.Abreast came (some handling)) {m : Machine} {d : Deed}
    (hm : m.inlet = x.machine.inlet) (hr : d.reading? = none) (hd : d.handling? = some handling)
    (hf : ¬ d.IsFinal) : (⟨m, x.history ++ [d]⟩ : Course).Abreast came none := by
  have hread : readings (x.history ++ [d]) = readings x.history := by
    rw [readings_concat, hr]
    exact List.append_nil _
  have hdone : handlings (x.history ++ [d]) = handlings x.history ++ [handling] := by
    rw [handlings_concat, hd]
    rfl
  refine ⟨?_, ?_, ?_⟩
  · simp only [hm, hread]
    exact hx.stream
  · simp only [hread, hdone]
    rw [hx.handled]
    simp
  · intro e he ht
    rcases List.mem_append.mp he with he | he
    · exact hx.goesOn e he ht
    · rw [List.mem_singleton.mp he]
      exact hf

/-- A step towards the end of the session comes after all that was to be handled. -/
theorem Course.Through.close (hx : x.Through came) {m : Machine} {d : Deed} (hm : m.inlet = x.machine.inlet)
    (hr : d.reading? = none) (hd : d.handling? = none) : (⟨m, x.history ++ [d]⟩ : Course).Through came := by
  have hread : readings (x.history ++ [d]) = readings x.history := by
    rw [readings_concat, hr]
    exact List.append_nil _
  have hdone : handlings (x.history ++ [d]) = handlings x.history := by
    rw [handlings_concat, hd]
    exact List.append_nil _
  refine ⟨?_, ?_, ?_, ?_⟩
  · simp only [hm]
    exact hx.ended
  · simp only [hread]
    exact hx.stream
  · simp only [hread, hdone]
    exact hx.handled
  · intro before e hb ht he
    simp only [hread, hdone]
    rcases List.prefix_concat_iff.mp hb with hb | hb
    · obtain ⟨rfl, -⟩ := List.append_inj' hb rfl
      exact ⟨rfl, rfl⟩
    · exact hx.final before e hb ht he

end

/-! ## Whole runs -/

structure ReadInvariant (occurrences : List Occurrence) (x : Course) (places : TaskId → Reading) : Prop where
  hungUp : x.machine.inlet.isEnded = isHungUp occurrences
  shows : (places 1).Shows x (arrived occurrences)
  others : ∀ t, t ≠ 1 → places t = .elsewhere
  old : 1 < x.machine.nextTask
  queue : (handlings x.history).filterMap Handling.inbound? = takings x.history ++ x.machine.inbound
  present : x.machine.tasks.get? 1 = none → places 1 = .closed ∨ .drop 1 ∈ occurrences
  own : ∀ d ∈ x.history, d.task = 1 → d.action.service? = some .reader ∨ d.IsFinal

theorem arrived_concat_of_silent {occurrences : List Occurrence} {e : Occurrence} (h : arrived [e] = []) :
    arrived (occurrences ++ [e]) = arrived occurrences := by
  rw [arrived_concat, h]
  cases isHungUp occurrences <;> simp

namespace ReadInvariant

variable {occurrences : List Occurrence} {x x' : Course} {places places' : TaskId → Reading} {e : Occurrence}

theorem ne_elsewhere (h : ReadInvariant occurrences x places) : places 1 ≠ .elsewhere := by
  intro he
  have hshows := h.shows
  rw [he] at hshows
  exact hshows

theorem oneTask (h : ReadInvariant occurrences x places) (hmove : Reading.placement.Move x places e x' places') :
    Reading.placement.OneTask 1 .elsewhere x places e x' places' :=
  Reading.excludes.oneTask hmove h.others h.old

theorem left (h : ReadInvariant occurrences x places) (result : Result)
    (hf : Reading.Fits (.finish result) (places 1)) :
    places 1 = .closed :=
  hf.resolve_right h.ne_elsewhere

theorem resumed (h : ReadInvariant occurrences x places) (phase : Phase)
    (hf : Reading.Fits (.resume phase) (places 1)) :
    places 1 = .listening ∧ phase = .reading :=
  hf.resolve_right fun he => h.ne_elsewhere he.1

theorem aside (h : ReadInvariant occurrences x places)
    (hone : Reading.placement.OneTask 1 .elsewhere x places e x' places) (hx : x.Aside x') (ha : arrived [e] = [])
    (hh : isHungUp [e] = false)
    (hq : (handlings x'.history).filterMap Handling.inbound? = takings x'.history ++ x'.machine.inbound) :
    ReadInvariant (occurrences ++ [e]) x' places := by
  constructor
  case hungUp =>
    rw [isHungUp_concat, hh, Bool.or_false, hx.inlet]
    exact h.hungUp
  case shows =>
    rw [arrived_concat_of_silent ha]
    exact hx.shows h.shows
  case others => exact h.others
  case old => exact hone.old h.old
  case queue => exact hq
  case present => exact hone.present (· = .closed) h.left h.present
  case own =>
    intro d hd ht
    obtain ⟨before, hb⟩ := exists_isPrefix hd
    exact h.own d (mem_of_isPrefix (hx.deeds before d hb ht)) ht

theorem shows_after {x : Course} {came : Bytes} {place : Reading} {a : Action} {answer : a.Answer} {m : Machine}
    {tasks : Table TaskId (Routine Next)} (h : place.Shows x came) (ha : place.Allows a)
    (hp : x.machine.perform 1 a = some (answer, m)) :
    (place.after a answer).Shows ⟨{ m with tasks := tasks }, x.history ++ [⟨1, a, answer⟩]⟩ came := by
  cases place with
  | listening =>
    cases ha
    obtain ⟨⟨event, inlet⟩, hnext, he⟩ := Option.map_eq_some_iff.mp hp
    cases he
    exact Course.Abreast.read h hnext rfl
  | holding handling =>
    cases ha
    cases handling with
    | reply id reply =>
      cases hp
      exact Course.Abreast.handle h rfl rfl rfl (by simp [Deed.IsFinal, Handling.action])
    | forward inbound =>
      cases hp
      exact Course.Abreast.handle h rfl rfl rfl (by simp [Deed.IsFinal, Handling.action])
  | ending =>
    obtain ⟨reason, rfl⟩ := ha
    cases hp
    exact ⟨Course.Through.close h rfl rfl rfl, rfl⟩
  | terminating =>
    cases ha
    cases hp
    exact ⟨Course.Through.close h.1 rfl rfl rfl, h.2, rfl⟩
  | closed => cases ha
  | elsewhere => cases h

theorem own_of_allows {x : Course} {came : Bytes} {place : Reading} {a : Action} (h : place.Shows x came)
    (ha : place.Allows a) (answer : a.Answer) : a.service? = some .reader ∨ Deed.IsFinal ⟨1, a, answer⟩ := by
  cases place with
  | listening =>
    cases ha
    exact .inl rfl
  | holding handling =>
    cases ha
    cases handling <;> exact .inl rfl
  | ending =>
    obtain ⟨reason, rfl⟩ := ha
    exact .inr (.inr ⟨reason, rfl⟩)
  | terminating =>
    cases ha
    exact .inr (.inl rfl)
  | closed => cases ha
  | elsewhere => cases h

theorem present_concat (h : ReadInvariant occurrences x places) (e : Occurrence)
    (hnone : x.machine.tasks.get? 1 = none) :
    places 1 = .closed ∨ .drop 1 ∈ occurrences ++ [e] :=
  (h.present hnone).imp_right (List.mem_append_left _)

theorem receive (h : ReadInvariant occurrences x places) (bytes : Bytes) :
    ReadInvariant (occurrences ++ [.receive bytes]) (x.happen (.receive bytes)) places := by
  rw [Course.happen, Machine.receive]
  by_cases he : x.machine.inlet.isEnded = true
  · rw [if_pos he]
    refine ⟨?_, ?_, h.others, h.old, h.queue, h.present_concat _, h.own⟩
    · rw [isHungUp_concat, ← h.hungUp, he]
      rfl
    · rw [arrived_concat, ← h.hungUp, he, cond_true, List.append_nil]
      exact h.shows
  · rw [if_neg he]
    rw [Bool.not_eq_true] at he
    refine ⟨?_, ?_, h.others, h.old, h.queue, h.present_concat _, h.own⟩
    · rw [isHungUp_concat, ← h.hungUp]
      exact (Bool.or_false _).symm
    · rw [arrived_concat, ← h.hungUp, he, cond_false]
      have hbytes : arrived [.receive bytes] = bytes := List.append_nil bytes
      rw [hbytes]
      exact shows_receive h.shows he bytes

theorem hangUp (h : ReadInvariant occurrences x places) :
    ReadInvariant (occurrences ++ [.hangUp]) (x.happen .hangUp) places := by
  refine ⟨?_, ?_, h.others, h.old, h.queue, h.present_concat _, h.own⟩
  · rw [isHungUp_concat]
    exact (Bool.or_true _).symm
  · rw [arrived_concat_of_silent rfl]
    exact shows_hangUp h.shows

theorem step_own (h : ReadInvariant occurrences x places) {a : Action} {answer : a.Answer} {m : Machine}
    {next : a.Answer → Routine Next} (ha : (places 1).Allows a) (hp : x.machine.perform 1 a = some (answer, m))
    (hnext : x.machine.nextTask ≤ m.nextTask) : ReadInvariant (occurrences ++ [.step 1])
      ⟨{ m with tasks := m.tasks.insert 1 (next answer) }, x.history ++ [⟨1, a, answer⟩]⟩
      (Function.update places 1 ((places 1).after a answer)) := by
  have hqueue := line_perform [] h.queue hp
  constructor
  case hungUp =>
    rw [isHungUp_concat]
    simpa [isHungUp] using (isEnded_perform hp).trans h.hungUp
  case shows =>
    rw [Function.update_self, arrived_concat_of_silent rfl]
    exact shows_after h.shows ha hp
  case others =>
    intro u hu
    rw [Function.update_of_ne hu]
    exact h.others u hu
  case old => exact Nat.lt_of_lt_of_le h.old hnext
  case queue => exact hqueue
  case present =>
    intro hnone
    simp at hnone
  case own =>
    intro d hd htask
    rcases List.mem_append.mp hd with hd | hd
    · exact h.own d hd htask
    · rw [List.mem_singleton.mp hd]
      exact own_of_allows h.shows ha answer

theorem silent_of_not_worldly (he : ¬ e.IsWorldly) : arrived [e] = [] ∧ isHungUp [e] = false := by
  cases e with
  | start | step | drop => exact ⟨rfl, rfl⟩
  | _ => exact absurd trivial he

theorem move (h : ReadInvariant occurrences x places)
    (hmove : Reading.placement.Move x places e x' places') : ReadInvariant (occurrences ++ [e]) x' places' := by
  have hone := h.oneTask hmove
  cases h.oneTask hmove with
  | act ht ha hp hn => exact h.step_own ha hp hn
  | finish ht hf => exact h.aside hone (aside_of_history rfl rfl id id) rfl rfl h.queue
  | @resume phase ht hf =>
    obtain ⟨hlisten, rfl⟩ := h.resumed phase hf
    have hsame : Function.update places 1 (Reading.placement.phase .reading) = places := by
      change Function.update places 1 .listening = places
      rw [← hlisten, Function.update_eq_self]
    rw [hsame] at hone ⊢
    exact h.aside hone (aside_of_history rfl rfl id id) rfl rfl h.queue
  | aside ht ha hp hn hown =>
    have hqueue := line_perform [] h.queue hp
    exact h.aside hone (aside_of_deed rfl ht ha.1 hp rfl rfl rfl) rfl rfl hqueue
  | still he hm hn hown =>
    obtain ⟨ha, hh⟩ := silent_of_not_worldly he
    refine h.aside hone (aside_of_history rfl hm.inlet hm.shut hm.state.trans) ha hh ?_
    rw [hm.inbound]
    exact h.queue
  | world he =>
    cases e with
    | start op => cases he
    | step t => cases he
    | drop t => cases he
    | receive bytes => exact h.receive bytes
    | hangUp => exact h.hangUp
    | _ => exact h.aside hone (aside_of_history rfl rfl id id) rfl rfl h.queue

end ReadInvariant

theorem readInvariant_begin (o : ClientOptions) (files : FileTree) (hasProcess : Bool) :
    ReadInvariant [] (Course.begin o files hasProcess) (Reading.placement.first o) := by
  have hbegin : ∀ x : Course, x.machine.inlet = .empty → x.machine.inbound = [] → x.history = [] →
      1 < x.machine.nextTask → x.machine.tasks.get? 1 ≠ none → ReadInvariant [] x (Reading.placement.first o) := by
    intro x hi hin hh hn ht
    constructor
    case hungUp =>
      rw [hi]
      rfl
    case shows =>
      refine ⟨?_, ?_, ?_⟩
      · intro more _
        rw [hi, hh]
        rfl
      · rw [hh]
        rfl
      · rw [hh]
        intro d hd
        exact absurd hd List.not_mem_nil
    case others =>
      intro t hne
      match t with
      | 0 => rfl
      | 1 => exact absurd rfl hne
      | 2 => rfl
      | _ + 3 => rfl
    case old => exact hn
    case queue =>
      rw [hh, hin]
      rfl
    case present => exact fun hnone => absurd hnone ht
    case own =>
      rw [hh]
      intro d hd
      exact absurd hd List.not_mem_nil
  cases hasProcess with
  | false => exact hbegin _ rfl rfl rfl (show 1 < 3 by decide) (Option.some_ne_none _)
  | true => exact hbegin _ rfl rfl rfl (show 1 < 4 by decide) (Option.some_ne_none _)

theorem readInvariant_run (o : ClientOptions) (files : FileTree) (hasProcess : Bool) (occurrences : List Occurrence) :
    ∃ places, ((Course.begin o files hasProcess).run occurrences).machine.KeepsRules Reading.placement places ∧
      ReadInvariant occurrences ((Course.begin o files hasProcess).run occurrences) places :=
  Placement.run (keepsRules_begin _ o files hasProcess) (readInvariant_begin o files hasProcess)
    (fun _ _ _ _ _ h hmove => h.move hmove) occurrences fun _ _ => trivial

end Liaison
