import Liaison.Proofs.Session.Placement
import Liaison.Proofs.Session.Ordinary
import Liaison.Proofs.Session.Streams

/-!
# Writing

Many tasks hand in frames, and one task writes them. It takes one errand after the other, writes the frame and gives
the receipt for it, until it is told to close or a write fails. Then it stops.
-/

namespace Liaison

/-! ## What was handed in -/

def Deed.handsIn? : Deed → Option Json
  | ⟨_, .enqueue frame, some _⟩ => some frame
  | _ => none

def handedIn (h : History) : List Json :=
  h.filterMap Deed.handsIn?

def Errand.frame? : Errand → Option Json
  | send frame _ => some frame
  | close => none

/-- What a deed asks of the task that writes. If that has stopped, it is not there to be asked for a frame. -/
def Deed.errand? : Deed → Option Errand
  | ⟨_, .enqueue frame, some ticket⟩ => some (.send frame ticket)
  | ⟨_, .enqueueClose, _⟩ => some .close
  | _ => none

/-- All that the task that writes was asked to do, in order. -/
def entrusted (h : History) : List Errand :=
  h.filterMap Deed.errand?

theorem entrusted_concat (h : History) (d : Deed) : entrusted (h ++ [d]) = entrusted h ++ d.errand?.toList :=
  filterMap_concat _ h d

theorem entrusted_append (h h' : History) : entrusted (h ++ h') = entrusted h ++ entrusted h' :=
  List.filterMap_append

theorem handedIn_eq (h : History) : handedIn h = (entrusted h).filterMap Errand.frame? := by
  rw [handedIn, entrusted, List.filterMap_filterMap]
  congr 1
  funext d
  obtain ⟨t, a, answer⟩ := d
  cases a with
  | enqueue frame => cases answer <;> rfl
  | _ => rfl

/-! ## The rules of writing -/

inductive Writing where
  | idle
  | carrying (frame : Json) (ticket : Nat)
  | carried (ticket : Nat)
  | failing (frame : Json) (ticket : Nat) (reason : String)
  | ending (frame : Json) (ticket : Nat)
  | terminating (frame : Json) (ticket : Nat)
  | closing
  | stopping (last : Errand)
  | stopped (last : Errand)
  | elsewhere

namespace Writing

def Allows : Writing → Action → Prop
  | idle, a => a = .nextErrand
  | carrying frame _, a => a = .write frame
  | carried ticket, a => a = .giveReceipt ticket .written
  | failing _ ticket reason, a => a = .giveReceipt ticket (.failed reason)
  | ending _ _, a => ∃ reason, a = .closeCalls reason
  | terminating _ _, a => a = .terminate
  | closing, a => a = .closeOutput
  | stopping _, a => a = .stopWriting
  | stopped _, _ => False
  | elsewhere, a => a.service? ≠ some .writer ∧ ∀ phase, a = .spawn phase → phase.service? ≠ some .writer

def after : Writing → (a : Action) → a.Answer → Writing
  | idle, .nextErrand, .send frame ticket => carrying frame ticket
  | idle, .nextErrand, .close => closing
  | carrying _ ticket, .write _, .ok _ => carried ticket
  | carrying frame ticket, .write _, .error reason => failing frame ticket reason
  | carried _, _, _ => idle
  | failing frame ticket _, _, _ => ending frame ticket
  | ending frame ticket, _, _ => terminating frame ticket
  | terminating frame ticket, _, _ => stopping (.send frame ticket)
  | closing, _, _ => stopping .close
  | stopping last, _, _ => stopped last
  | place, _, _ => place

def Fits : Next → Writing → Prop
  | .finish _, place => (∃ last, place = stopped last) ∨ place = elsewhere
  | .resume phase, place => place = idle ∧ phase = .writing ∨ place = elsewhere ∧ phase.service? ≠ some .writer

def ofPhase : Phase → Writing
  | .writing => idle
  | _ => elsewhere

def rules : Rules Writing :=
  ⟨Allows, after⟩

theorem reserves_elsewhere : rules.Reserves elsewhere .writer :=
  fun _ hs hp => ⟨⟨hs, hp⟩, fun _ => rfl⟩

theorem keeps_of_stays {service : Option Service} {r : Routine Next} (hs : service ≠ some .writer)
    (h : rules.Stays elsewhere service r) : r.Keeps rules elsewhere Fits :=
  h.keeps (fun _ => .inr rfl) fun _ hp _ => .inr ⟨rfl, hp ▸ hs⟩

theorem keeps_writing : writing.Keeps rules idle Fits := by
  refine ⟨rfl, ?_⟩
  intro errand
  cases errand with
  | close => exact ⟨rfl, fun _ => ⟨rfl, fun _ => .inl ⟨.close, rfl⟩⟩⟩
  | send frame ticket =>
    refine ⟨rfl, ?_⟩
    intro result
    cases result with
    | ok _ => exact ⟨rfl, fun _ => .inl ⟨rfl, rfl⟩⟩
    | error reason =>
      refine ⟨rfl, fun _ => ⟨⟨_, rfl⟩, fun _ => ⟨rfl, fun _ => ⟨rfl, fun _ => ?_⟩⟩⟩⟩
      exact .inl ⟨.send frame ticket, rfl⟩

theorem ofPhase_eq_elsewhere {p : Phase} (hp : p.service? ≠ some .writer) : ofPhase p = elsewhere := by
  cases p with
  | writing => exact absurd rfl hp
  | _ => rfl

theorem keeps_phase (p : Phase) : p.routine.Keeps rules (ofPhase p) Fits := by
  by_cases hp : p.service? = some .writer
  · cases p with
    | writing => exact keeps_writing
    | _ => cases hp
  · rw [ofPhase_eq_elsewhere hp]
    exact keeps_of_stays hp (reserves_elsewhere.stays_phase hp)

def placement : Placement rules where
  Admits _ := True
  operation _ := elsewhere
  phase := ofPhase
  Fits := Fits
  keeps_operation o op _ := keeps_of_stays (by simp) (reserves_elsewhere.stays_operation o op)
  keeps_phase := keeps_phase

theorem not_spawn {place : Writing} {phase : Phase} (ha : place.Allows (.spawn phase)) :
    place = elsewhere ∧ phase.service? ≠ some .writer := by
  cases place with
  | elsewhere => exact ⟨rfl, ha.2 _ rfl⟩
  | ending frame ticket =>
    obtain ⟨_, he⟩ := ha
    cases he
  | stopped last => exact ha.elim
  | _ => cases ha

theorem excludes : placement.Excludes 0 elsewhere where
  operation _ := rfl
  after _ _ _ := rfl
  spawn _ _ ha := ofPhase_eq_elsewhere (not_spawn ha).2
  resume _ hf := by
    rcases hf with ⟨he, -⟩ | ⟨-, hp⟩
    · cases he
    · exact ofPhase_eq_elsewhere hp

end Writing

end Liaison
