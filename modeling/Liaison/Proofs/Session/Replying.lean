import Liaison.Proofs.Session.TaskPlaces
import Liaison.Proofs.Session.Dispatching
import Mathlib.Data.List.Forall2

/-!
# Replying

Every answer to the server has a task of its own, which hands it in and does nothing else. So no answer is handed in
twice, and none is missing of a task that has returned, although it is lost if the stream to the server is closed.
-/

namespace Liaison

/-! ## The rules of replying -/

inductive Replying where
  | ready (m : Message)
  | done
  | elsewhere

namespace Replying

def Allows : Replying → Action → Prop
  | ready m, a => a = .enqueue m.toJson
  | done, a => ∃ ticket, a = .awaitReceipt ticket
  | elsewhere, _ => True

def after : Replying → (a : Action) → a.Answer → Replying
  | ready _, _, _ => done
  | place, _, _ => place

def Fits : Next → Replying → Prop
  | .finish _, place => ∀ m, place ≠ ready m
  | .resume phase, place => place = elsewhere ∧ ∀ m, phase ≠ .answering m

def ofPhase : Phase → Replying
  | .answering m => ready m
  | _ => elsewhere

def rules : Rules Replying :=
  ⟨Allows, after⟩

theorem tolerates_elsewhere (a : Action) : rules.Tolerates elsewhere a :=
  ⟨trivial, fun _ => rfl⟩

theorem isEasy_elsewhere : rules.IsEasy elsewhere :=
  fun a _ => tolerates_elsewhere a

theorem ends_elsewhere : rules.Ends elsewhere :=
  ⟨tolerates_elsewhere _, fun _ => tolerates_elsewhere _, tolerates_elsewhere _, tolerates_elsewhere _⟩

theorem keeps_of_stays {service : Option Service} {r : Routine Next} (h : rules.Stays elsewhere service r) :
    r.Keeps rules elsewhere Fits :=
  h.keeps (fun _ _ => Replying.noConfusion) fun _ _ hm => ⟨rfl, hm⟩

theorem keeps_operation (o : ClientOptions) (op : Operation) : (op.routine o).Keeps rules elsewhere Fits :=
  keeps_of_stays (stays_any_operation isEasy_elsewhere ends_elsewhere
    (fun _ => ⟨fun _ _ => tolerates_elsewhere _, fun _ => tolerates_elsewhere _⟩)
    (fun _ _ => tolerates_elsewhere _) o op)

theorem keeps_answering (m : Message) : (answering m).Keeps rules (ready m) Fits := by
  refine Routine.keeps_bind.mpr (Attempt.keeps_bind.mpr ⟨rfl, fun ticket : Option Nat => ?_⟩)
  cases ticket with
  | none => exact fun _ => Replying.noConfusion
  | some ticket =>
    refine Attempt.keeps_bind.mpr ⟨⟨ticket, rfl⟩, fun receipt : Receipt => ?_⟩
    cases receipt <;> exact fun _ => Replying.noConfusion

theorem ofPhase_eq_elsewhere {p : Phase} (hp : ∀ m, p ≠ .answering m) : ofPhase p = elsewhere := by
  cases p with
  | answering m => exact absurd rfl (hp m)
  | _ => rfl

theorem keeps_phase (p : Phase) : p.routine.Keeps rules (ofPhase p) Fits := by
  by_cases hp : ∀ m, p ≠ .answering m
  · rw [ofPhase_eq_elsewhere hp]
    exact keeps_of_stays (stays_phase isEasy_elsewhere.isPlain ends_elsewhere (fun _ _ a _ => tolerates_elsewhere a)
      (fun _ _ => tolerates_elsewhere _) fun _ _ => tolerates_elsewhere _)
  · push Not at hp
    obtain ⟨m, rfl⟩ := hp
    exact keeps_answering m

def placement : Placement rules where
  Admits _ := True
  operation _ := elsewhere
  phase := ofPhase
  Fits := Fits
  keeps_operation o op _ := keeps_operation o op
  keeps_phase := keeps_phase

end Replying

/-! ## What was handed in -/

def Action.frame? : Action → Option Json
  | enqueue frame => some frame
  | _ => none

/-- What a task has handed in, whether that was accepted or not. -/
def offers (h : History) (t : TaskId) : List Json :=
  (h.filter (·.task = t)).filterMap fun d => d.action.frame?

/-- The task hands in the answer and nothing else, and has done so when it returns. -/
structure Course.HandsIn (x : Course) (t : TaskId) (m : Message) : Prop where
  offers : offers x.history t <+: [m.toJson]
  returned : ∀ result, x.machine.results.get? t = some result → Liaison.offers x.history t = [m.toJson]

section

variable {h : History} {t u : TaskId} {a : Action}

theorem offers_concat_self (answer : a.Answer) : offers (h ++ [⟨t, a, answer⟩]) t = offers h t ++ a.frame?.toList := by
  simp only [offers, List.filter_append, List.filterMap_append]
  cases hf : a.frame? <;> simp [hf]

theorem offers_concat_of_ne (hne : u ≠ t) (answer : a.Answer) : offers (h ++ [⟨t, a, answer⟩]) u = offers h u := by
  simp [offers, Ne.symm hne]

theorem offers_eq_nil (hn : ∀ d ∈ h, d.task ≠ t) : offers h t = [] := by
  have hnone : h.filter (·.task = t) = [] := by simpa using hn
  rw [offers, hnone]
  rfl

end

namespace Replying

def Shows (offered : List Json) (m : Message) : Replying → Prop
  | ready m' => m' = m ∧ offered = []
  | done => offered = [m.toJson]
  | elsewhere => False

variable {place : Replying} {h : History} {t : TaskId} {a : Action} {m : Message}

theorem Shows.after (hs : place.Shows (offers h t) m) (ha : place.Allows a) (answer : a.Answer) :
    (place.after a answer).Shows (offers (h ++ [⟨t, a, answer⟩]) t) m := by
  rw [offers_concat_self]
  cases place with
  | ready m' =>
    obtain ⟨rfl, hoffers⟩ := hs
    cases ha
    rw [hoffers]
    rfl
  | done =>
    obtain ⟨ticket, rfl⟩ := ha
    exact (List.append_nil _).trans hs
  | elsewhere => cases hs

theorem eq_elsewhere_of_spawn {phase : Phase} (ha : place.Allows (.spawn phase)) : place = elsewhere := by
  cases place with
  | ready m => cases ha
  | done =>
    obtain ⟨_, he⟩ := ha
    cases he
  | elsewhere => rfl

end Replying

/-! ## Whole runs -/

structure Replied (senders : List TaskId) (x : Course) (places : TaskId → Replying) : Prop where
  taskPlaces : TaskPlaces Replying.placement x.machine places
  nodup : senders.Nodup
  shows : List.Forall₂ (fun t m => (places t).Shows (offers x.history t) m) senders
    ((actions x.history).filterMap Action.reply?)
  known : ∀ t ∈ senders, t < x.machine.nextTask
  old : ∀ d ∈ x.history, d.task < x.machine.nextTask

namespace Replied

open Replying (placement)

variable {senders : List TaskId} {x x' : Course} {places places' : TaskId → Replying} {e : Occurrence}

theorem still (h : Replied senders x places) {m : Machine} (htaskPlaces : TaskPlaces placement m places')
    (hplace : ∀ t, t < x.machine.nextTask → places t ≠ .elsewhere → places' t = places t)
    (hn : x.machine.nextTask ≤ m.nextTask) : Replied senders ⟨m, x.history⟩ places' := by
  refine ⟨htaskPlaces, h.nodup, ?_, fun t ht => Nat.lt_of_lt_of_le (h.known t ht) hn, fun d hd =>
    Nat.lt_of_lt_of_le (h.old d hd) hn⟩
  -- A task with an answer is at a place of its own, and so it is none of those that others may have come to.
  refine ((List.forall₂_and_left _ _).mpr ⟨h.known, h.shows⟩).imp ?_
  rintro t m' ⟨hlt, hshows⟩
  rwa [hplace t hlt (by rintro he; rw [he] at hshows; exact hshows)]

theorem act (h : Replied senders x places) {t : TaskId} {a : Action} {answer : a.Answer}
    (ha : (places t).Allows a) (hr : a.reply? = none) :
    List.Forall₂ (fun u m => (Function.update places t ((places t).after a answer) u).Shows
        (offers (x.history ++ [⟨t, a, answer⟩]) u) m) senders
      ((actions (x.history ++ [⟨t, a, answer⟩])).filterMap Action.reply?) := by
  rw [actions_concat, filterMap_concat, hr, Option.toList_none, List.append_nil]
  refine h.shows.imp fun u m hshows => ?_
  by_cases e : u = t
  · subst e
    rw [Function.update_self]
    exact hshows.after ha answer
  · rw [Function.update_of_ne e, offers_concat_of_ne e]
    exact hshows

theorem spawn (h : Replied senders x places) {t : TaskId} {phase : Phase} {m : Machine}
    (ha : (places t).Allows (.spawn phase)) (ht : t < x.machine.nextTask)
    (hn : m.nextTask = x.machine.nextTask + 1) (hplaces : places' = Function.update
      (Function.update places x.machine.nextTask (placement.phase phase)) t ((places t).after (.spawn phase) ()))
    (htaskPlaces : TaskPlaces placement m places') :
    ∃ senders', Replied senders' ⟨m, x.history ++ [⟨t, .spawn phase, ()⟩]⟩ places' := by
  have helsewhere := Replying.eq_elsewhere_of_spawn ha
  have hle : x.machine.nextTask ≤ m.nextTask := hn ▸ Nat.le_succ _
  have hnow : ∀ d ∈ x.history ++ [⟨t, .spawn phase, ()⟩], d.task < x.machine.nextTask :=
    forall_task_lt_concat h.old ht (Nat.le_refl _)
  have hold : ∀ d ∈ x.history ++ [⟨t, .spawn phase, ()⟩], d.task < m.nextTask :=
    fun d hd => Nat.lt_of_lt_of_le (hnow d hd) hle
  have hkept : List.Forall₂ (fun u m' => (places' u).Shows (offers (x.history ++ [⟨t, .spawn phase, ()⟩]) u) m') senders
      ((actions x.history).filterMap Action.reply?) := by
    refine ((List.forall₂_and_left _ _).mpr ⟨h.known, h.shows⟩).imp ?_
    rintro u m' ⟨hlt, hshows⟩
    have hut : u ≠ t := by
      rintro rfl
      rw [helsewhere] at hshows
      exact hshows
    rwa [hplaces, Function.update_of_ne hut, Function.update_of_ne (Nat.ne_of_lt hlt), offers_concat_of_ne hut]
  have hreplies : (actions (x.history ++ [⟨t, .spawn phase, ()⟩])).filterMap Action.reply? =
      (actions x.history).filterMap Action.reply? ++ (Action.spawn phase).reply?.toList := by
    rw [actions_concat, filterMap_concat]
  by_cases hp : ∀ m, phase ≠ .answering m
  · have hnone : (Action.spawn phase).reply? = none := by
      cases phase <;> first | rfl | exact absurd rfl (hp _)
    refine ⟨senders, htaskPlaces, h.nodup, ?_, fun u hu => Nat.lt_of_lt_of_le (h.known u hu) hle, hold⟩
    rw [hreplies, hnone, Option.toList_none, List.append_nil]
    exact hkept
  · push Not at hp
    obtain ⟨reply, rfl⟩ := hp
    have hnew : x.machine.nextTask ∉ senders := fun hmem => absurd (h.known _ hmem) (Nat.lt_irrefl _)
    refine ⟨senders ++ [x.machine.nextTask], htaskPlaces, ?_, ?_, ?_, hold⟩
    · exact h.nodup.append (List.nodup_singleton _) (by simpa using hnew)
    · rw [hreplies]
      refine List.rel_append hkept (.cons ?_ .nil)
      have hnone := offers_eq_nil fun d hd => Nat.ne_of_lt (hnow d hd)
      rw [hplaces, Function.update_of_ne (Nat.ne_of_gt ht), Function.update_self, hnone]
      exact ⟨rfl, rfl⟩
    · intro u hu
      rcases List.mem_append.mp hu with hu | hu
      · exact Nat.lt_of_lt_of_le (h.known u hu) hle
      · rw [List.mem_singleton.mp hu, hn]
        exact Nat.lt_succ_self _

theorem move (h : Replied senders x places) (hc : x.machine.KeepsRules placement places)
    (hmove : placement.Move x places e x' places') : ∃ senders', Replied senders' x' places' := by
  have htaskPlaces : TaskPlaces placement x'.machine places' := Placement.Upholds.taskPlaces hc h.taskPlaces hmove
  cases hmove with
  | @act t a answer m next ht ha hp htasks hn =>
    have hr : a.reply? = none := by
      cases a with
      | spawn phase =>
        cases hp
        exact absurd hn (Nat.succ_ne_self _)
      | _ => rfl
    exact ⟨senders, htaskPlaces, h.nodup, h.act ha hr, fun u hu => hn ▸ h.known u hu,
      forall_task_lt_concat h.old (hc.old t _ ht) (Nat.le_of_eq hn.symm)⟩
  | @spawn t phase next ht ha =>
    exact h.spawn ha (hc.old t _ ht) rfl rfl htaskPlaces
  | @finish t result ht hf => exact ⟨senders, h.still htaskPlaces (fun _ _ _ => rfl) (Nat.le_refl _)⟩
  | @resume t phase ht hf =>
    refine ⟨senders, h.still htaskPlaces (fun u _ hu => ?_) (Nat.le_refl _)⟩
    rw [Function.update_of_ne]
    rintro rfl
    exact hu hf.1
  | wait hw => exact ⟨senders, h⟩
  | start ha =>
    exact ⟨senders, h.still htaskPlaces (fun u hu _ => Function.update_of_ne (Nat.ne_of_lt hu) ..) (Nat.le_succ _)⟩
  | @drop t r ht =>
    rw [Machine.drop, ht] at htaskPlaces ⊢
    exact ⟨senders, h.still htaskPlaces (fun _ _ _ => rfl) (Nat.le_refl _)⟩
  | miss ht => exact ⟨senders, h⟩
  | world he =>
    obtain ⟨m, hm, hsame⟩ := happen_of_isWorldly he x
    rw [hm] at htaskPlaces ⊢
    exact ⟨senders, h.still htaskPlaces (fun _ _ _ => rfl) (Nat.le_of_eq hsame.nextTask.symm)⟩

end Replied

/-- The session of a client that is being connected, while messages of the server are waiting already. -/
def Course.connectedWith (o : ClientOptions) (files : FileTree) (hasProcess : Bool) (first : List Inbound) : Course :=
  ⟨{ (Course.connected o files hasProcess).machine with inbound := first }, []⟩

theorem keepsRules_connectedWith {σ : Type} {R : Rules σ} (c : Placement R) (o : ClientOptions) (files : FileTree)
    (hasProcess : Bool) (first : List Inbound) {place : σ} (h : connecting.Keeps R place c.Fits) :
    (Course.connectedWith o files hasProcess first).machine.KeepsRules c (c.connected o files hasProcess place) :=
  (keepsRules_connected c o files hasProcess h).congr rfl rfl

/-- Whatever happens, every answer is handed in by a task of its own, once at most and by all that have returned. -/
theorem handsIn_run (o : ClientOptions) (files : FileTree) (hasProcess : Bool) (first : List Inbound)
    (occurrences : List Occurrence) :
    let x := (Course.connectedWith o files hasProcess first).run occurrences
    ∃ senders : List TaskId, senders.Nodup ∧
      List.Forall₂ x.HandsIn senders ((actions x.history).filterMap Action.reply?) := by
  intro x
  have hconnecting : connecting.Keeps Replying.rules .elsewhere Replying.placement.Fits :=
    ⟨trivial, fun _ _ => Replying.noConfusion⟩
  have htaskPlaces : TaskPlaces Replying.placement (Course.connectedWith o files hasProcess first).machine
      (Replying.placement.connected o files hasProcess .elsewhere) := by
    obtain ⟨hunused, hreturned⟩ := taskPlaces_connected Replying.placement o files hasProcess .elsewhere
    exact ⟨fun t ht => ⟨(hunused t ht).place, (hunused t ht).result⟩, hreturned⟩
  obtain ⟨places, -, senders, h⟩ := Placement.run (I := fun _ x places => ∃ senders, Replied senders x places)
    (keepsRules_connectedWith _ o files hasProcess first hconnecting)
    ⟨[], htaskPlaces, List.nodup_nil, .nil, by simp, fun d hd => by cases hd⟩
    (fun _ _ _ _ hc h hmove => h.elim fun _ h => h.move hc hmove) occurrences fun _ _ => trivial
  refine ⟨senders, h.nodup, h.shows.imp fun t m hshows => ?_⟩
  have hfits := h.taskPlaces.returned t
  cases hplace : places t with
  | ready m' =>
    rw [hplace] at hshows hfits
    refine ⟨hshows.2 ▸ List.nil_prefix, fun result hresult => ?_⟩
    exact absurd rfl ((hfits result hresult).2 m')
  | done =>
    rw [hplace] at hshows
    exact ⟨hshows ▸ List.prefix_rfl, fun _ _ => hshows⟩
  | elsewhere =>
    rw [hplace] at hshows
    cases hshows

end Liaison
