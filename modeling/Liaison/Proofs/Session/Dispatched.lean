import Liaison.Proofs.Session.ReadProgress
import Liaison.Proofs.Session.Readiness
import Liaison.Proofs.Session.Replying

/-!
# Replies and pushes in order

Whatever happens to a session, what the server says on its own is dealt with in the order in which it came. What was
done about it is what the messages that were taken ask for, except that the last of them may still be in hand.
-/

namespace Liaison

/-! ## What was done -/

def doings (h : History) : List Action :=
  (actions h).filter Action.isOnAgenda

section

variable {h : History} {d : Deed}

theorem doings_concat_of_pos (hd : d.action.isOnAgenda = true) : doings (h ++ [d]) = doings h ++ [d.action] := by
  simp [doings, actions_concat, hd]

theorem doings_concat_of_neg (hd : ¬ d.action.isOnAgenda = true) : doings (h ++ [d]) = doings h := by
  simp [doings, actions_concat, hd]

/-- What does not count among what is done about messages is no part of it. -/
theorem filterMap_doings {β : Type} {f : Action → Option β} (hf : ∀ a, ¬ a.isOnAgenda = true → f a = none)
    (h : History) : (doings h).filterMap f = (actions h).filterMap f := by
  rw [doings, List.filterMap_filter]
  apply List.filterMap_congr
  intro a _
  split
  · rfl
  · rename_i ha
    exact (hf a ha).symm

theorem taking?_of_ne (ha : d.action ≠ .nextInbound) : d.taking? = none := by
  obtain ⟨t, a, answer⟩ := d
  cases a with
  | nextInbound => exact absurd rfl ha
  | _ => rfl

theorem takings_concat_of_ne (ha : d.action ≠ .nextInbound) : takings (h ++ [d]) = takings h := by
  rw [takings_concat, taking?_of_ne ha]
  exact List.append_nil _

end

/-! ### What messages come to -/

/-- Answers, what was shown to those who asked for it, and diagnostics. -/
structure RepliesAndPushes where
  replies : List Message
  notices : List (String × Json)
  sets : List DiagnosticSet
deriving DecidableEq

namespace RepliesAndPushes

/-- What messages come to if they are dealt with one after another. -/
def due (rootUri : Option String) (messages : List Inbound) : RepliesAndPushes :=
  ⟨messages.filterMap (Inbound.reply? rootUri), messages.filterMap Inbound.notice?,
    numbered 0 (messages.filterMap Inbound.push?)⟩

def of (actions : List Action) : RepliesAndPushes :=
  ⟨actions.filterMap Action.reply?, actions.filterMap Action.notice?, actions.filterMap Action.push?⟩

structure IsPrefix (u v : RepliesAndPushes) : Prop where
  replies : u.replies <+: v.replies
  notices : u.notices <+: v.notices
  sets : u.sets <+: v.sets

theorem of_script (rootUri : Option String) (messages : List Inbound) :
    of (script rootUri 0 messages) = due rootUri messages := by
  rw [of, due, filterMap_script (fun _ => filterMap_agenda_reply), filterMap_script (fun _ => filterMap_agenda_notice),
    filterMap_script_push]

theorem of_doings (h : History) : of (doings h) = of (actions h) := by
  have hnothing : ∀ a : Action, ¬ a.isOnAgenda = true → a.reply? = none ∧ a.notice? = none ∧ a.push? = none := by
    intro a ha
    cases a <;> first | exact ⟨rfl, rfl, rfl⟩ | exact absurd rfl ha
  rw [of, of, filterMap_doings fun a ha => (hnothing a ha).1, filterMap_doings fun a ha => (hnothing a ha).2.1,
    filterMap_doings fun a ha => (hnothing a ha).2.2]

theorem isPrefix_of {first later : List Action} (h : first <+: later) : (of first).IsPrefix (of later) :=
  ⟨h.filterMap _, h.filterMap _, h.filterMap _⟩

end RepliesAndPushes

/-! ## What an action does -/

def DiagnosticCache.act (c : DiagnosticCache) : Action → DiagnosticCache
  | .publish set => (c.publish? set).getD c
  | .giveNotice => c.notify
  | .forgetVersion uri => c.forgetVersion uri
  | _ => c

section

variable {m m' : Machine} {t : TaskId} {a : Action} {answer : a.Answer}

theorem diagnostics_perform (hp : m.perform t a = some (answer, m')) : m'.diagnostics = m.diagnostics.act a := by
  cases a with
  | publish set =>
    simp only [Machine.perform, Machine.publish] at hp
    split at hp
    · rename_i hc
      cases hp
      simp [DiagnosticCache.act, hc]
    · rename_i hc
      cases hp
      simp [DiagnosticCache.act, hc]
  | giveNotice =>
    cases hp
    rfl
  | forgetVersion uri =>
    cases hp
    rfl
  | _ => exact (spares_perform hp).diagnostics (by simp [Action.reach])

theorem shown_perform (hp : m.perform t a = some (answer, m')) : m'.shown = m.shown ++
    (RepliesAndPushes.of [a]).notices.flatMap fun notice => ((m.handlers.get? notice.1).getD []).map (·, notice.2) := by
  cases a with
  | present method params =>
    cases hp
    simp [Machine.present, RepliesAndPushes.of, Action.notice?]
  | _ =>
    rw [(streams_perform hp).shown (by simp [Action.stream?])]
    exact (List.append_nil _).symm

theorem perform_isSome_of_isOnAgenda (ha : a.isOnAgenda = true) : (m.perform t a).isSome = true := by
  cases a <;> first | rfl | cases ha

end

/-! ## How far the messages have come -/

namespace Dispatching

variable {rootUri : Option String} {h : History} {place : Dispatching} {t : TaskId} {a : Action} {n : Nat}
  {agenda : List Action}

def count (messages : List Inbound) : Nat :=
  (messages.filterMap Inbound.push?).length

/-- All is done about the messages that were taken but what is left on the agenda of the last one. -/
def Midway (rootUri : Option String) (h : History) (n : Nat) (agenda : List Action) : Prop :=
  ∃ before i done, takings h = before ++ [i] ∧ n = count (before ++ [i]) ∧
    i.agenda rootUri (count before) = done ++ agenda ∧ doings h = script rootUri 0 before ++ done

def Shows (rootUri : Option String) (h : History) : Dispatching → Prop
  | idle root n => root = rootUri ∧ n = count (takings h) ∧ doings h = script rootUri 0 (takings h)
  | busy root n agenda => root = rootUri ∧ Midway rootUri h n agenda
  | noticing root n agenda => root = rootUri ∧ Midway rootUri h n agenda
  | elsewhere => False

theorem count_concat (messages : List Inbound) (i : Inbound) : count (messages ++ [i]) = i.next (count messages) := by
  rw [count, filterMap_concat, List.length_append]
  rfl

theorem Midway.take (hn : n = count (takings h)) (hdone : doings h = script rootUri 0 (takings h)) (i : Inbound) :
    Midway rootUri (h ++ [⟨t, .nextInbound, i⟩]) (i.next n) (i.agenda rootUri n) := by
  refine ⟨takings h, i, [], takings_concat _ _, ?_, ?_, ?_⟩
  · rw [count_concat, hn]
  · rw [hn, List.nil_append]
  · rw [doings_concat_of_neg (by simp [Action.isOnAgenda]), hdone, List.append_nil]

theorem Midway.isOnAgenda (hm : Midway rootUri h n (a :: agenda)) : a.isOnAgenda = true := by
  obtain ⟨before, i, done, -, -, hagenda, -⟩ := hm
  have ha : a ∈ i.agenda rootUri (count before) := by simp [hagenda]
  exact isOnAgenda_of_mem ha

theorem Midway.next (hm : Midway rootUri h n (a :: agenda)) (answer : a.Answer) :
    Midway rootUri (h ++ [⟨t, a, answer⟩]) n agenda := by
  have ha := hm.isOnAgenda
  obtain ⟨before, i, done, htaken, hn, hagenda, hdone⟩ := hm
  refine ⟨before, i, done ++ [a], ?_, hn, by simp [hagenda], ?_⟩
  · rw [takings_concat_of_ne, htaken]
    rintro rfl
    cases ha
  · rw [doings_concat_of_pos ha, hdone, List.append_assoc]

theorem Midway.finish (hm : Midway rootUri h n []) :
    n = count (takings h) ∧ doings h = script rootUri 0 (takings h) := by
  obtain ⟨before, i, done, htaken, hn, hagenda, hdone⟩ := hm
  rw [List.append_nil] at hagenda
  refine ⟨htaken ▸ hn, ?_⟩
  rw [htaken, script_concat, Nat.zero_add, hdone, ← hagenda]
  rfl

theorem Shows.aside (hs : place.Shows rootUri h) {h' : History} (ht : takings h' = takings h)
    (hd : doings h' = doings h) : place.Shows rootUri h' := by
  cases place with
  | idle root n =>
    unfold Shows
    rwa [ht, hd]
  | busy root n agenda =>
    unfold Shows Midway
    rwa [ht, hd]
  | noticing root n agenda =>
    unfold Shows Midway
    rwa [ht, hd]
  | elsewhere => exact hs

theorem Shows.after (hs : place.Shows rootUri h) (ha : place.Allows a) (answer : a.Answer) :
    (place.after a answer).Shows rootUri (h ++ [⟨t, a, answer⟩]) := by
  cases place with
  | idle root n =>
    obtain ⟨rfl, hn, hdone⟩ := hs
    cases ha
    exact ⟨rfl, .take hn hdone answer⟩
  | busy root n agenda =>
    obtain ⟨rfl, hm⟩ := hs
    obtain ⟨rest, rfl⟩ : ∃ rest, agenda = a :: rest := List.head?_eq_some_iff.mp ha.1
    have hnext : Midway root (h ++ [⟨t, a, answer⟩]) n rest := hm.next answer
    cases a with
    | publish set => cases answer <;> exact ⟨rfl, hnext⟩
    | _ => exact ⟨rfl, hnext⟩
  | noticing root n agenda =>
    cases ha
    obtain ⟨rfl, hm⟩ := hs
    refine ⟨rfl, ?_⟩
    unfold Midway
    rwa [takings_concat_of_ne (by simp), doings_concat_of_neg (by simp [Action.isOnAgenda])]
  | elsewhere => cases hs

/-- All but the last message are done with, and nothing is done that none of them asks for. -/
theorem Shows.between (hs : place.Shows rootUri h) :
    script rootUri 0 (takings h).dropLast <+: doings h ∧ doings h <+: script rootUri 0 (takings h) := by
  have hmidway : ∀ {n agenda}, Midway rootUri h n agenda →
      script rootUri 0 (takings h).dropLast <+: doings h ∧ doings h <+: script rootUri 0 (takings h) := by
    rintro n agenda ⟨before, i, done, htaken, -, hagenda, hdone⟩
    rw [htaken, List.dropLast_concat, hdone, script_concat, Nat.zero_add]
    refine ⟨List.prefix_append _ _, List.prefix_append_right_inj _ |>.mpr ?_⟩
    exact hagenda ▸ List.prefix_append done agenda
  cases place with
  | idle root n =>
    rw [hs.2.2]
    refine ⟨?_, List.prefix_rfl⟩
    rcases List.eq_nil_or_concat (takings h) with htaken | ⟨before, i, htaken⟩
    · rw [htaken]
      exact List.prefix_rfl
    · rw [htaken, List.concat_eq_append, List.dropLast_concat, script_concat]
      exact List.prefix_append _ _
  | busy root n agenda => exact hmidway hs.2
  | noticing root n agenda => exact hmidway hs.2
  | elsewhere => cases hs

end Dispatching

/-! ## Whole runs -/

/-- The name of somebody who asks for the notifications of the method. -/
def Occurrence.handler? (method : String) : Occurrence → Option String
  | addHandler asked name => if asked = method then some name else none
  | _ => none

def handlersOf (method : String) (occurrences : List Occurrence) : List String :=
  occurrences.filterMap (Occurrence.handler? method)

/-- What is shown of notices, to everybody who has asked for their methods. -/
def showings (occurrences : List Occurrence) (notices : List (String × Json)) : List (String × Json) :=
  notices.flatMap fun notice => (handlersOf notice.1 occurrences).map (·, notice.2)

structure Course.Traced (first : List Inbound) (occurrences : List Occurrence) (x : Course) : Prop where
  line : first ++ (handlings x.history).filterMap Handling.inbound? = takings x.history ++ x.machine.inbound
  cache : x.machine.diagnostics = (actions x.history).foldl DiagnosticCache.act .empty
  handlers : ∀ method, (x.machine.handlers.get? method).getD [] = handlersOf method occurrences

structure DispatchInvariant (rootUri : Option String) (first : List Inbound) (occurrences : List Occurrence)
    (x : Course) (places : TaskId → Dispatching) : Prop where
  shows : (places 2).Shows rootUri x.history
  others : ∀ t, t ≠ 2 → places t = .elsewhere
  old : 2 < x.machine.nextTask
  present : x.machine.tasks.get? 2 = none → .drop 2 ∈ occurrences
  traced : x.Traced first occurrences

section

variable {rootUri : Option String} {first : List Inbound} {occurrences : List Occurrence} {x x' : Course}
  {places places' : TaskId → Dispatching} {e : Occurrence}

theorem handlersOf_concat (method : String) (occurrences : List Occurrence) (e : Occurrence) :
    handlersOf method (occurrences ++ [e]) = handlersOf method occurrences ++ (e.handler? method).toList :=
  filterMap_concat _ occurrences e

namespace Course.Traced

theorem deed (h : x.Traced first occurrences) {t : TaskId} {a : Action} {answer : a.Answer} {m : Machine}
    {tasks : Table TaskId (Routine Next)} (hp : x.machine.perform t a = some (answer, m)) :
    Traced first (occurrences ++ [.step t]) ⟨{ m with tasks := tasks }, x.history ++ [⟨t, a, answer⟩]⟩ := by
  have hline := line_perform first h.line hp
  have hcache := diagnostics_perform hp
  constructor
  · exact hline
  · rw [actions_concat, List.foldl_append, ← h.cache]
    exact hcache
  · intro method
    rw [handlersOf_concat]
    simpa [(streams_perform hp).handlers, Occurrence.handler?] using h.handlers method

theorem still (h : x.Traced first occurrences) {m : Machine} (hi : m.inbound = x.machine.inbound)
    (hd : m.diagnostics = x.machine.diagnostics) (hh : m.handlers = x.machine.handlers)
    (he : ∀ method, e.handler? method = none) : Traced first (occurrences ++ [e]) ⟨m, x.history⟩ := by
  constructor
  · exact hi ▸ h.line
  · exact hd ▸ h.cache
  · intro method
    rw [handlersOf_concat, he]
    simpa [hh] using h.handlers method

theorem world (h : x.Traced first occurrences) (he : e.IsWorldly) : (x.happen e).Traced first (occurrences ++ [e]) := by
  cases e with
  | start op => cases he
  | step t => cases he
  | drop t => cases he
  | addHandler asked name =>
    refine ⟨h.line, h.cache, fun method => ?_⟩
    rw [handlersOf_concat, ← h.handlers]
    by_cases hm : method = asked
    · simp [Course.happen, Machine.addHandler, Occurrence.handler?, hm]
    · simp [Course.happen, Machine.addHandler, Occurrence.handler?, hm, Ne.symm hm]
  | receive bytes =>
    rw [Course.happen, Machine.receive]
    split <;> exact h.still rfl rfl rfl fun _ => rfl
  | _ => exact h.still rfl rfl rfl fun _ => rfl

theorem oneTask (h : x.Traced first occurrences)
    (hone : Dispatching.placement.OneTask 2 .elsewhere x places e x' places') :
    x'.Traced first (occurrences ++ [e]) := by
  cases hone with
  | act _ _ hp _ => exact h.deed hp
  | aside _ _ hp _ _ => exact h.deed hp
  | finish | resume => exact h.still rfl rfl rfl fun _ => rfl
  | still he hm =>
    refine h.still hm.inbound hm.diagnostics hm.handlers fun method => ?_
    cases e <;> first | rfl | exact absurd trivial he
  | world he => exact h.world he

theorem shown_oneTask (h : x.Traced first occurrences)
    (hone : Dispatching.placement.OneTask 2 .elsewhere x places e x' places') :
    ∃ new, x'.history = x.history ++ new ∧
      x'.machine.shown = x.machine.shown ++ showings occurrences (RepliesAndPushes.of (actions new)).notices := by
  have hdeed : ∀ {t : TaskId} {a : Action} {answer : a.Answer} {m : Machine},
      x.machine.perform t a = some (answer, m) →
        m.shown = x.machine.shown ++ showings occurrences (RepliesAndPushes.of (actions [⟨t, a, answer⟩])).notices := by
    intro t a answer m hp
    rw [shown_perform hp]
    simp [showings, h.handlers, actions]
  have hstill : ∀ {m : Machine}, m.shown = x.machine.shown → ∃ new, x.history = x.history ++ new ∧
      m.shown = x.machine.shown ++ showings occurrences (RepliesAndPushes.of (actions new)).notices :=
    fun hm => ⟨[], (List.append_nil _).symm, hm.trans (List.append_nil _).symm⟩
  cases hone with
  | @act a answer m next ht ha hp hn =>
    have hshown := hdeed hp
    exact ⟨[⟨2, a, answer⟩], rfl, hshown⟩
  | @aside t a answer m tasks ht ha hp =>
    have hshown := hdeed hp
    exact ⟨[⟨t, a, answer⟩], rfl, hshown⟩
  | finish | resume => exact hstill rfl
  | still he hm => exact hstill hm.shown
  | world he =>
    cases e with
    | start op => cases he
    | step t => cases he
    | drop t => cases he
    | receive bytes =>
      rw [Course.happen, Machine.receive]
      split <;> exact hstill rfl
    | _ => exact hstill rfl

end Course.Traced

namespace DispatchInvariant

theorem ne_elsewhere (h : DispatchInvariant rootUri first occurrences x places) : places 2 ≠ .elsewhere := by
  intro he
  have hshows := h.shows
  rw [he] at hshows
  exact hshows

theorem resumed (h : DispatchInvariant rootUri first occurrences x places) (phase : Phase)
    (hf : Dispatching.Fits (.resume phase) (places 2)) :
    ∃ root n, places 2 = .busy root n [] ∧ phase = .dispatching root n :=
  hf.resolve_right fun he => h.ne_elsewhere he.1

theorem oneTask (h : DispatchInvariant rootUri first occurrences x places)
    (hmove : Dispatching.placement.Move x places e x' places') :
    Dispatching.placement.OneTask 2 .elsewhere x places e x' places' :=
  Dispatching.excludes.oneTask hmove h.others h.old

theorem shows_oneTask (h : DispatchInvariant rootUri first occurrences x places)
    (hone : Dispatching.placement.OneTask 2 .elsewhere x places e x' places') :
    (places' 2).Shows rootUri x'.history := by
  have hshows := h.shows
  cases hone with
  | act ht ha hp hn =>
    rw [Function.update_self]
    exact hshows.after ha _
  | resume ht hf =>
    obtain ⟨root, n, hbusy, rfl⟩ := h.resumed _ hf
    rw [hbusy] at hshows
    rw [Function.update_self]
    exact ⟨hshows.1, hshows.2.finish⟩
  | @aside t a answer m tasks ht ha hp hn hown =>
    obtain ⟨hs, hspawn⟩ := ha
    refine hshows.aside (takings_concat_of_ne ?_) (doings_concat_of_neg ?_)
    · rintro rfl
      exact hs rfl
    · intro hagenda
      cases a <;> first | exact hs rfl | exact hspawn _ rfl | cases hagenda
  | finish | still => exact hshows
  | world he =>
    obtain ⟨m, hm, -⟩ := happen_of_isWorldly he x
    rw [hm]
    exact hshows

theorem move (h : DispatchInvariant rootUri first occurrences x places)
    (hmove : Dispatching.placement.Move x places e x' places') :
    DispatchInvariant rootUri first (occurrences ++ [e]) x' places' := by
  have hone := h.oneTask hmove
  refine ⟨h.shows_oneTask hone, hone.others h.others, hone.old h.old, ?_, h.traced.oneTask hone⟩
  have hpresent := hone.present (· = .elsewhere) (fun _ hf => hf) fun hnone => .inr (h.present hnone)
  intro hnone
  refine (hpresent hnone).resolve_left fun he => ?_
  have hshows := h.shows_oneTask hone
  rw [he] at hshows
  exact hshows

end DispatchInvariant

/-! ### Coming to rest -/

def Action.effort : Action → Nat
  | publish _ => 2
  | _ => 1

def efforts : List Action → Nat
  | [] => 0
  | a :: rest => a.effort + efforts rest

def Course.effort (x : Course) : Dispatching → Nat
  | .idle _ _ => 6 * x.machine.inbound.length
  | .busy _ _ agenda => 6 * x.machine.inbound.length + efforts agenda + 1
  | .noticing _ _ agenda => 6 * x.machine.inbound.length + efforts agenda + 2
  | .elsewhere => 0

theorem effort_agenda_le (rootUri : Option String) (n : Nat) (i : Inbound) :
    efforts (i.agenda rootUri n) ≤ 4 := by
  cases i with
  | notification method params =>
    simp only [Inbound.agenda]
    cases Meaning.of method (params.getD .null) <;> simp [Meaning.agenda, efforts, Action.effort]
  | request id method params => simp [Inbound.agenda, efforts, Action.effort]
  | undecodable reason => simp [Inbound.agenda, efforts, Action.effort]

theorem inbound_perform_of_isOnAgenda {m m' : Machine} {t : TaskId} {a : Action} {answer : a.Answer}
    (ha : a.isOnAgenda = true) (hp : m.perform t a = some (answer, m')) : m'.inbound = m.inbound := by
  apply (streams_perform hp).inbound
  intro hs
  cases a <;> first | exact Bool.noConfusion ha | cases hs

namespace DispatchInvariant

theorem allows_cases (h : DispatchInvariant rootUri first occurrences x places) {a : Action}
    (ha : (places 2).Allows a) :
    (∃ root n, places 2 = .idle root n ∧ a = .nextInbound) ∨
    (∃ root n rest, places 2 = .busy root n (a :: rest) ∧ a.isOnAgenda = true) ∨
    (∃ root n rest, places 2 = .noticing root n rest ∧ a = .giveNotice) := by
  have hshows := h.shows
  cases hplace : places 2 with
  | idle root n =>
    rw [hplace] at ha
    exact .inl ⟨root, n, rfl, ha⟩
  | busy root n agenda =>
    rw [hplace] at ha hshows
    obtain ⟨rest, rfl⟩ : ∃ rest, agenda = a :: rest := List.head?_eq_some_iff.mp ha.1
    exact .inr (.inl ⟨root, n, rest, rfl, hshows.2.isOnAgenda⟩)
  | noticing root n agenda =>
    rw [hplace] at ha
    exact .inr (.inr ⟨root, n, agenda, rfl, ha⟩)
  | elsewhere => exact absurd hplace h.ne_elsewhere

theorem effort_after (h : DispatchInvariant rootUri first occurrences x places) {a : Action} {answer : a.Answer}
    {m : Machine} {tasks : Table TaskId (Routine Next)} (ha : (places 2).Allows a)
    (hp : x.machine.perform 2 a = some (answer, m)) :
    (⟨{ m with tasks := tasks }, x.history ++ [⟨2, a, answer⟩]⟩ : Course).effort ((places 2).after a answer) <
      x.effort (places 2) := by
  rcases h.allows_cases ha with ⟨root, n, hplace, rfl⟩ | ⟨root, n, rest, hplace, hagenda⟩ | ⟨root, n, rest, hplace, rfl⟩
  · simp only [Machine.perform] at hp
    split at hp
    · rename_i i rest hi
      cases hp
      have hle := effort_agenda_le root n answer
      simp only [hplace, Dispatching.after, Course.effort, hi, List.length_cons]
      omega
    · cases hp
  · have hi := inbound_perform_of_isOnAgenda hagenda hp
    rw [hplace]
    cases a with
    | publish set =>
      cases answer with
      | true =>
        simp [Dispatching.after, Course.effort, efforts, Action.effort, hi]
        omega
      | false => simp [Dispatching.after, Course.effort, efforts, Action.effort, hi]
    | _ => simp [Dispatching.after, Course.effort, efforts, Action.effort, hi]
  · cases hp
    rw [hplace]
    exact Nat.lt_succ_self _

theorem handlings_after (h : DispatchInvariant rootUri first occurrences x places) {a : Action}
    (ha : (places 2).Allows a) (answer : a.Answer) :
    handlings (x.history ++ [⟨2, a, answer⟩]) = handlings x.history := by
  have hnone : Deed.handling? ⟨2, a, answer⟩ = none := by
    rcases h.allows_cases ha with ⟨_, _, -, rfl⟩ | ⟨_, _, _, -, hagenda⟩ | ⟨_, _, _, -, rfl⟩
    · rfl
    · cases a <;> first | rfl | cases hagenda
    · rfl
  rw [handlings_concat, hnone]
  exact List.append_nil _

theorem effort_step (h : DispatchInvariant rootUri first occurrences x places)
    (hc : x.machine.KeepsRules Dispatching.placement places) (hadv : x.machine.advance 2 ≠ none) :
    ∃ places', (x.happen (.step 2)).machine.KeepsRules Dispatching.placement places' ∧
      (DispatchInvariant rootUri first (occurrences ++ [.step 2]) (x.happen (.step 2)) places' ∧
        handlings (x.happen (.step 2)).history = handlings x.history) ∧
      (x.happen (.step 2)).effort (places' 2) < x.effort (places 2) := by
  obtain ⟨places', hmove, hc'⟩ := hc.step 2
  have hnext := h.move hmove
  have hon : handlings (x.happen (.step 2)).history = handlings x.history ∧
      (x.happen (.step 2)).effort (places' 2) < x.effort (places 2) := by
    generalize x.happen (.step 2) = x' at hmove
    cases hmove with
    | @act _ a answer m next ht ha hp =>
      rw [Function.update_self]
      exact ⟨h.handlings_after ha answer, h.effort_after ha hp⟩
    | @spawn _ phase next ht ha =>
      rw [Function.update_self]
      exact ⟨h.handlings_after ha (), h.effort_after ha rfl⟩
    | @finish _ result ht hf => exact absurd hf h.ne_elsewhere
    | @resume _ phase ht hf =>
      -- Beginning anew is a step too, which is why an empty agenda is not yet the end.
      obtain ⟨root, n, hbusy, rfl⟩ := h.resumed phase hf
      rw [Function.update_self, hbusy]
      exact ⟨rfl, Nat.lt_succ_self _⟩
    | wait hw => exact absurd hw hadv
    | world he => cases he
  exact ⟨places', hc', ⟨hnext, hon.1⟩, hon.2⟩

theorem rest (h : DispatchInvariant rootUri first occurrences x places)
    (hc : x.machine.KeepsRules Dispatching.placement places) (hd : .drop 2 ∉ occurrences)
    (hadv : x.machine.advance 2 = none) :
    x.machine.inbound = [] ∧ doings x.history = script rootUri 0 (takings x.history) := by
  cases ht : x.machine.tasks.get? 2 with
  | none => exact absurd (h.present ht) hd
  | some r =>
    have hkeeps := hc.keeps 2 r ht
    rw [Machine.advance, ht] at hadv
    cases r with
    | done next => cases next <;> cases hadv
    | step a next =>
      have hnone : x.machine.perform 2 a = none := Option.map_eq_none_iff.mp hadv
      -- What is on an agenda needs nothing of others: only a message can be waited for.
      rcases h.allows_cases hkeeps.1 with ⟨root, n, hplace, rfl⟩ | ⟨_, _, _, -, hagenda⟩ | ⟨_, _, _, -, rfl⟩
      · have hshows := h.shows
        rw [hplace] at hshows
        simp only [Machine.perform] at hnone
        split at hnone
        · cases hnone
        · exact ⟨‹_›, hshows.2.2⟩
      · have hsome : (x.machine.perform 2 a).isSome = true := perform_isSome_of_isOnAgenda hagenda
        simp [hnone] at hsome
      · cases hnone

end DispatchInvariant

end

/-! ### From the beginning on -/

theorem dispatchInvariant_connected (o : ClientOptions) (files : FileTree) (hasProcess : Bool) (first : List Inbound) :
    DispatchInvariant (fileUri? o.root) first [] (Course.connectedWith o files hasProcess first)
      (Dispatching.placement.connected o files hasProcess .elsewhere) := by
  have hfirst : ∀ t, t ≠ 2 → Dispatching.placement.first o t = .elsewhere := by
    intro t ht
    match t with
    | 0 => rfl
    | 1 => rfl
    | 2 => exact absurd rfl ht
    | _ + 3 => rfl
  have hothers : ∀ t, t ≠ 2 → Dispatching.placement.connected o files hasProcess .elsewhere t = .elsewhere := by
    intro t ht
    unfold Placement.connected
    by_cases e : t = (Course.begin o files hasProcess).machine.nextTask
    · rw [e, Function.update_self]
    · rw [Function.update_of_ne e]
      exact hfirst t ht
  cases hasProcess with
  | false =>
    exact ⟨⟨rfl, rfl, rfl⟩, hothers, show 2 < 4 by decide, fun hnone => absurd hnone (Option.some_ne_none _),
      (List.append_nil first).trans rfl, rfl, fun _ => rfl⟩
  | true =>
    exact ⟨⟨rfl, rfl, rfl⟩, hothers, show 2 < 5 by decide, fun hnone => absurd hnone (Option.some_ne_none _),
      (List.append_nil first).trans rfl, rfl, fun _ => rfl⟩

theorem dispatchInvariant_run (o : ClientOptions) (files : FileTree) (hasProcess : Bool) (first : List Inbound)
    (occurrences : List Occurrence) :
    let x := (Course.connectedWith o files hasProcess first).run occurrences
    ∃ places, x.machine.KeepsRules Dispatching.placement places ∧
      DispatchInvariant (fileUri? o.root) first occurrences x places := by
  have hconnecting : connecting.Keeps Dispatching.rules .elsewhere Dispatching.placement.Fits :=
    ⟨⟨by simp [Action.service?], by simp⟩, fun _ => rfl⟩
  exact Placement.run (keepsRules_connectedWith _ o files hasProcess first hconnecting)
    (dispatchInvariant_connected o files hasProcess first)
    (fun _ _ _ _ _ h hmove => h.move hmove) occurrences fun _ _ => trivial

theorem id_answerTo (rootUri : Option String) (id : Json) (method : String) (params : Option Json) :
    (answerTo rootUri id method params).toJson.member? "id" = some id := by
  obtain ⟨outcome, he⟩ := exists_answerTo rootUri id method params
  rw [he, (Message.member?_toJson _).1]
  rfl

/-- How far the messages of the server have come. They are taken in the order in which they came, and what was done is
what those ask for that were taken, though the last of them may still be in hand. -/
structure Course.DispatchesInOrder (rootUri : Option String) (came : List Inbound) (x : Course) : Prop where
  order : takings x.history ++ x.machine.inbound = came
  done : (RepliesAndPushes.due rootUri (takings x.history).dropLast).IsPrefix (RepliesAndPushes.of (actions x.history))
  due : (RepliesAndPushes.of (actions x.history)).IsPrefix (RepliesAndPushes.due rootUri (takings x.history))

theorem DispatchInvariant.dispatchesInOrder {rootUri : Option String} {first : List Inbound}
    {occurrences : List Occurrence} {x : Course} {places : TaskId → Dispatching}
    (h : DispatchInvariant rootUri first occurrences x places) :
    x.DispatchesInOrder rootUri (first ++ (handlings x.history).filterMap Handling.inbound?) := by
  obtain ⟨hdone, hdue⟩ := h.shows.between
  refine ⟨h.traced.line.symm, ?_, ?_⟩
  · rw [← RepliesAndPushes.of_doings, ← RepliesAndPushes.of_script]
    exact RepliesAndPushes.isPrefix_of hdone
  · rw [← RepliesAndPushes.of_doings, ← RepliesAndPushes.of_script]
    exact RepliesAndPushes.isPrefix_of hdue

/-- The task that dispatchesInOrder comes to rest, and then all that had come is dealt with. -/
theorem DispatchInvariant.exists_rest {rootUri : Option String} {first : List Inbound} {occurrences : List Occurrence}
    {x : Course} {places : TaskId → Dispatching} (h : DispatchInvariant rootUri first occurrences x places)
    (hc : x.machine.KeepsRules Dispatching.placement places) (hd : .drop 2 ∉ occurrences) :
    ∃ n, let y := x.run (List.replicate n (.step 2))
      y.machine.inbound = [] ∧ RepliesAndPushes.of (actions y.history) =
        RepliesAndPushes.due rootUri (first ++ (handlings x.history).filterMap Handling.inbound?) := by
  have hstep : ∀ {occurrences : List Occurrence} {y : Course} {places : TaskId → Dispatching},
      DispatchInvariant rootUri first occurrences y places ∧ handlings y.history = handlings x.history →
      y.machine.KeepsRules Dispatching.placement places → y.machine.advance 2 ≠ none →
      ∃ places', (y.happen (.step 2)).machine.KeepsRules Dispatching.placement places' ∧
        (DispatchInvariant rootUri first (occurrences ++ [.step 2]) (y.happen (.step 2)) places' ∧
          handlings (y.happen (.step 2)).history = handlings x.history) ∧
        (y.happen (.step 2)).effort (places' 2) < y.effort (places 2) := by
    intro occurrences y places hy hc hadv
    obtain ⟨places', hc', ⟨h', hhandlings⟩, hlt⟩ := hy.1.effort_step hc hadv
    exact ⟨places', hc', ⟨h', hhandlings.trans hy.2⟩, hlt⟩
  obtain ⟨n, -, places', hc', ⟨h', hhandlings⟩, hrest⟩ := Placement.exists_rest
    (I := fun occurrences y places => DispatchInvariant rootUri first occurrences y places ∧
      handlings y.history = handlings x.history) hstep ⟨h, rfl⟩ hc
  obtain ⟨hempty, hdone⟩ := h'.rest hc' (by simp [hd]) hrest
  refine ⟨n, hempty, ?_⟩
  have hline := h'.traced.line
  rw [hempty, List.append_nil, hhandlings] at hline
  rw [← RepliesAndPushes.of_doings, hdone, RepliesAndPushes.of_script, hline]

/-- Whatever the server says on its own, and whatever else happens: the messages are taken one after another. Each
request has one answer, and nothing else has any, which is handed in by a task of its own; each notification is shown
once to everybody who has asked for its method by then; and diagnostics that can be read are numbered from one on as
they go into the cache. Unless the dispatcher is dropped, it comes to the end of what there is. -/
theorem replies_and_pushes_in_order (o : ClientOptions) (files : FileTree) (hasProcess : Bool) (first : List Inbound)
    (occurrences : List Occurrence) :
    let rootUri := fileUri? o.root
    let x := (Course.connectedWith o files hasProcess first).run occurrences
    let came := first ++ (handlings x.history).filterMap Handling.inbound?
    x.DispatchesInOrder rootUri came ∧
    (.drop 2 ∉ occurrences → ∃ n, let y := x.run (List.replicate n (.step 2))
      y.machine.inbound = [] ∧ RepliesAndPushes.of (actions y.history) = RepliesAndPushes.due rootUri came) ∧
    (∃ senders : List TaskId, senders.Nodup ∧
      List.Forall₂ x.HandsIn senders (RepliesAndPushes.of (actions x.history)).replies) ∧
    (∀ id method params, (∃ outcome, answerTo rootUri id method params = .response id outcome) ∧
      (answerTo rootUri id method params).toJson.member? "id" = some id) ∧
    (∀ id params, answerTo rootUri id "workspace/configuration" params =
      .reply id (.arr (List.replicate (itemCount params) .null))) ∧
    (∀ e, ∃ new, (x.happen e).history = x.history ++ new ∧ (x.happen e).machine.shown =
      x.machine.shown ++ showings occurrences (RepliesAndPushes.of (actions new)).notices) ∧
    x.machine.diagnostics = (actions x.history).foldl DiagnosticCache.act .empty := by
  intro rootUri x came
  obtain ⟨places, hc, h⟩ := dispatchInvariant_run o files hasProcess first occurrences
  refine ⟨h.dispatchesInOrder, h.exists_rest hc, handsIn_run o files hasProcess first occurrences, ?_,
    fun _ _ => if_pos rfl, ?_,
    h.traced.cache⟩
  · exact fun id method params => ⟨exists_answerTo rootUri id method params, id_answerTo rootUri id method params⟩
  · intro e
    obtain ⟨places', hmove, -⟩ := hc.happen e fun _ _ => trivial
    exact h.traced.shown_oneTask (h.oneTask hmove)

/-- A question for two settings, diagnostics without a document, something that is no message, and diagnostics. -/
def mixedMessages : List Inbound :=
  [.request .null "workspace/configuration" (some (Json.ofMembers [("items", .arr [.str "a", .str "b"])])),
    .notification "textDocument/publishDiagnostics" (some (Json.ofMembers [("diagnostics", .arr [])])),
    .undecodable "",
    .notification "textDocument/publishDiagnostics"
      (some (Json.ofMembers [("uri", .str "file:///a"), ("diagnostics", .arr [])]))]

theorem replies_and_pushes_in_order_mixed :
    .drop 2 ∉ [Occurrence.addHandler "textDocument/publishDiagnostics" "a"] ∧
    ∃ n, let y := ((Course.connectedWith plainOptions ⟨[], []⟩ false mixedMessages).run
        [.addHandler "textDocument/publishDiagnostics" "a"]).run (List.replicate n (.step 2))
      y.machine.inbound = [] ∧ RepliesAndPushes.of (actions y.history) =
        ⟨[.reply .null (.arr [.null, .null])],
          [("textDocument/publishDiagnostics", Json.ofMembers [("diagnostics", .arr [])]),
            ("textDocument/publishDiagnostics", Json.ofMembers [("uri", .str "file:///a"), ("diagnostics", .arr [])])],
          [⟨"file:///a", [], ⟨none, 1⟩⟩]⟩ := by
  have hdrop : .drop 2 ∉ [Occurrence.addHandler "textDocument/publishDiagnostics" "a"] := by simp
  obtain ⟨n, hempty, hdone⟩ := (replies_and_pushes_in_order plainOptions ⟨[], []⟩ false mixedMessages
    [.addHandler "textDocument/publishDiagnostics" "a"]).2.1 hdrop
  exact ⟨hdrop, n, hempty, hdone.trans (by decide +kernel)⟩

end Liaison
