import Liaison.Proofs.Diagnostic.Reopening
import Liaison.Proofs.Session.Placement
import Liaison.Proofs.Session.Ordinary

/-!
# Notices of diagnostics

A set is in the cache before the notice of it is given. Both are done by one task, which does nothing else in between.
So every set that was taken in has been announced, or its task gives the notice next, unless it was dropped just there.
-/

namespace Liaison

/-- The task has taken in diagnostics and has not given the notice of them yet. -/
def OwesNotice (t : TaskId) : History → Prop :=
  Since (fun _ d => d.task = t ∧ d.takesIn?.isSome = true) fun d => d.task = t → d.action ≠ .giveNotice

def IsUnannounced (h : History) : Prop :=
  ∃ t, OwesNotice t h

def Machine.IsNotifying (m : Machine) (t : TaskId) : Prop :=
  ∃ next, m.tasks.get? t = some (.step .giveNotice next)

/-- No task is dropped between taking in diagnostics and giving the notice of them. -/
def Course.LetsNotify (x : Course) (occurrences : List Occurrence) : Prop :=
  ∀ first t later, occurrences = first ++ .drop t :: later → ¬ (x.run first).machine.IsNotifying t

section

variable {h : History} {d : Deed} {t : TaskId}

theorem owesNotice_concat : OwesNotice t (h ++ [d]) ↔ (d.task = t ∧ d.takesIn?.isSome = true) ∨
    (OwesNotice t h ∧ (d.task = t → d.action ≠ .giveNotice)) :=
  since_concat

theorem isUnannounced_concat_of_takesIn (hd : d.takesIn?.isSome = true) : IsUnannounced (h ++ [d]) :=
  ⟨d.task, owesNotice_concat.mpr (.inl ⟨rfl, hd⟩)⟩

theorem IsUnannounced.concat (hh : IsUnannounced h) (hd : d.action ≠ .giveNotice) : IsUnannounced (h ++ [d]) := by
  obtain ⟨t, ht⟩ := hh
  exact ⟨t, owesNotice_concat.mpr (.inr ⟨ht, fun _ => hd⟩)⟩

end

/-! ## The rules of notifying -/

inductive Notifying where
  | free
  | owing

namespace Notifying

def Allows : Notifying → Action → Prop
  | free, _ => True
  | owing, a => a = .giveNotice

def after : Notifying → (a : Action) → a.Answer → Notifying
  | free, .publish _, true => owing
  | owing, .giveNotice, _ => free
  | place, _, _ => place

def Fits (_ : Next) (place : Notifying) : Prop :=
  place = free

def rules : Rules Notifying :=
  ⟨Allows, after⟩

theorem tolerates_free {a : Action} (h : ∀ set, a ≠ .publish set) : rules.Tolerates free a := by
  refine ⟨trivial, fun answer => ?_⟩
  cases a with
  | publish set => exact absurd rfl (h set)
  | _ => rfl

theorem isEasy_free : rules.IsEasy free := by
  intro a ha
  apply tolerates_free
  rintro set rfl
  cases ha

theorem ends_free : rules.Ends free :=
  ⟨tolerates_free (by simp), fun _ => tolerates_free (by simp), tolerates_free (by simp), tolerates_free (by simp)⟩

theorem speaks_free (method : String) : rules.Speaks free method :=
  ⟨fun _ _ => tolerates_free (by simp), fun _ => tolerates_free (by simp)⟩

theorem calm_takeIn (set : DiagnosticSet) : (takeIn set).Calm rules free := by
  refine ⟨trivial, fun isNew : Bool => ?_⟩
  cases isNew with
  | true => exact ⟨rfl, fun _ => rfl⟩
  | false => exact rfl

theorem keeps_of_stays {service : Option Service} {r : Routine Next} (h : rules.Stays free service r) :
    r.Keeps rules free Fits :=
  h.mono fun _ _ hstays => hstays.1

theorem keeps_phase (p : Phase) : p.routine.Keeps rules free Fits := by
  by_cases hp : ∃ rootUri sequence, p = .dispatching rootUri sequence
  · obtain ⟨rootUri, sequence, rfl⟩ := hp
    exact keeps_of_stays (stays_dispatching_of_takeIn (fun _ _ => tolerates_free) calm_takeIn
      (fun _ _ => tolerates_free (by simp)) rootUri sequence)
  · refine keeps_of_stays (stays_phase isEasy_free.isPlain ends_free ?_ (fun _ _ => tolerates_free (by simp))
      fun _ _ => tolerates_free (by simp))
    intro service hservice a ha
    apply tolerates_free
    rintro set rfl
    cases ha
    cases p with
    | dispatching rootUri sequence => exact hp ⟨_, _, rfl⟩
    | _ => cases hservice

def placement : Placement rules where
  Admits _ := True
  operation _ := free
  phase _ := free
  Fits := Fits
  keeps_operation o op _ :=
    keeps_of_stays (stays_any_operation isEasy_free ends_free speaks_free (fun _ _ => tolerates_free (by simp)) o op)
  keeps_phase := keeps_phase

theorem after_of_takesIn {place : Notifying} {t : TaskId} {a : Action} {answer : a.Answer} (ha : place.Allows a)
    (h : (Deed.takesIn? ⟨t, a, answer⟩).isSome = true) : place.after a answer = owing := by
  cases a with
  | publish set =>
    cases answer with
    | true =>
      cases place with
      | free => rfl
      | owing => cases ha
    | false => cases h
  | _ => cases h

end Notifying

/-! ## Whole runs -/

def Course.KnowsDebtors (x : Course) (places : TaskId → Notifying) : Prop :=
  ∀ t, OwesNotice t x.history → places t = .owing ∧ ∃ r, x.machine.tasks.get? t = some r

section

open Notifying (placement)

variable {x x' : Course} {places places' : TaskId → Notifying} {t : TaskId} {e : Occurrence}

theorem isNotifying_of_owing {r : Routine Next} (hc : x.machine.KeepsRules placement places)
    (ht : x.machine.tasks.get? t = some r) (hp : places t = .owing) : x.machine.IsNotifying t := by
  have hr := hc.keeps t r ht
  rw [hp] at hr
  cases r with
  | done next => cases hr
  | step a next =>
    obtain ⟨rfl, -⟩ := hr
    exact ⟨next, ht⟩

theorem Course.KnowsDebtors.move (h : x.KnowsDebtors places) (hc : x.machine.KeepsRules placement places)
    (hmove : placement.Move x places e x' places') (hd : ∀ t, e = .drop t → ¬ x.machine.IsNotifying t) :
    x'.KnowsDebtors places' := by
  intro u hu
  cases hmove with
  | @act t a answer m next ht ha hp htasks hnext =>
    by_cases e : u = t
    · subst e
      rw [Function.update_self]
      refine ⟨?_, next answer, by simp⟩
      rcases owesNotice_concat.mp hu with ⟨-, htakes⟩ | ⟨hold, hne⟩
      · exact Notifying.after_of_takesIn ha htakes
      · -- Who owes the notice may do nothing else.
        rw [(h u hold).1] at ha
        exact absurd ha (hne rfl)
    · obtain ⟨hold, -⟩ := (owesNotice_concat.mp hu).resolve_left fun hnew => e hnew.1.symm
      obtain ⟨hplace, r, hr⟩ := h u hold
      rw [Function.update_of_ne e]
      exact ⟨hplace, r, by simpa [e, htasks] using hr⟩
  | @spawn t phase next ht ha =>
    obtain ⟨hold, -⟩ := (owesNotice_concat.mp hu).resolve_left fun hnew => by cases hnew.2
    obtain ⟨hplace, r, hr⟩ := h u hold
    have hne : u ≠ t := by
      rintro rfl
      rw [hplace] at ha
      cases ha
    have hnew := hc.ne_nextTask hr
    rw [Function.update_of_ne hne, Function.update_of_ne hnew]
    exact ⟨hplace, r, by simpa [Machine.addTask, hne, hnew] using hr⟩
  | @finish t result ht hf =>
    obtain ⟨hplace, r, hr⟩ := h u hu
    have hne : u ≠ t := by
      rintro rfl
      cases hplace.symm.trans hf
    exact ⟨hplace, r, by simpa [hne] using hr⟩
  | @resume t phase ht hf =>
    obtain ⟨hplace, r, hr⟩ := h u hu
    have hne : u ≠ t := by
      rintro rfl
      cases hplace.symm.trans hf
    rw [Function.update_of_ne hne]
    exact ⟨hplace, r, by simpa [hne] using hr⟩
  | wait hw => exact h u hu
  | start ha =>
    obtain ⟨hplace, r, hr⟩ := h u hu
    have hnew := hc.ne_nextTask hr
    rw [Function.update_of_ne hnew]
    exact ⟨hplace, r, by simpa [Machine.addTask, hnew] using hr⟩
  | @drop t r ht =>
    obtain ⟨hplace, r', hr⟩ := h u hu
    have hne : u ≠ t := by
      rintro rfl
      exact hd u rfl (isNotifying_of_owing hc hr hplace)
    rw [Machine.drop, ht]
    exact ⟨hplace, r', by simpa [hne] using hr⟩
  | miss ht => exact h u hu
  | world he =>
    obtain ⟨m, hm, hsame⟩ := happen_of_isWorldly he x
    rw [hm] at hu ⊢
    rw [hsame.tasks]
    exact h u hu

/-- As long as something that was taken in is unannounced, a task gives a notice next. -/
theorem exists_isNotifying (hc : x.machine.KeepsRules placement places) (hx : x.history = [])
    {occurrences : List Occurrence} (hd : x.LetsNotify occurrences) (h : IsUnannounced (x.run occurrences).history) :
    ∃ t, (x.run occurrences).machine.IsNotifying t := by
  have hnone : x.KnowsDebtors places := by
    intro t ht
    rw [hx] at ht
    exact absurd ht not_since_nil
  obtain ⟨places', hc', hknows⟩ := Placement.run (I := fun occurrences y places =>
    x.LetsNotify occurrences → y.KnowsDebtors places) hc (fun _ => hnone) (by
      intro occurrences e places places' hc ih hmove hd
      refine (ih fun first t later he => hd first t (later ++ [e]) (by simp [he])).move hc hmove ?_
      rintro t rfl
      exact hd occurrences t [] rfl) occurrences fun _ _ => trivial
  obtain ⟨t, ht⟩ := h
  obtain ⟨hplace, r, hr⟩ := hknows hd t ht
  exact ⟨t, isNotifying_of_owing hc' hr hplace⟩

end

end Liaison
