import Liaison.Proofs.Session.Placement
import Liaison.Proofs.Session.Ordinary

/-!
# Reading

One task reads what comes from the server, and nobody else does. It hands on what it has read before it reads
again, and it ends the session only after the last event of the stream.
-/

namespace Liaison

/-! ## What is to be done -/

inductive Handling where
  | reply (id : Nat) (reply : Reply)
  | forward (inbound : Inbound)

def Handling.action : Handling → Action
  | reply id r => .fulfill id r
  | forward inbound => .forward inbound

def Handling.inbound? : Handling → Option Inbound
  | reply _ _ => none
  | forward inbound => some inbound

/-- A response goes to the call with its number, and is dropped if its id is no number of 64 bits. Notifications
and requests are handed on. -/
def Message.handling? : Message → Option Handling
  | request id method params => some (.forward (.request id method params))
  | notification method params => some (.forward (.notification method params))
  | response (.int n) outcome =>
    if 0 ≤ n ∧ n < Route.idBound then
      match outcome with
      | .result v => some (.reply n.toNat (.ok v))
      | .error e => some (.reply n.toNat (.error (.server e.code e.message)))
    else none
  | response _ _ => none

def Frame.Event.handling? : Frame.Event → Option Handling
  | frame v =>
    match Message.ofJson v with
    | .ok m => m.handling?
    | .error e => some (.forward (.undecodable e.message))
  | malformed flaw => some (.forward (.undecodable flaw.message))
  | fault _ | ended => none

def Route.handling? : Route → Option Handling
  | reply id r => some (.reply id r)
  | forward inbound => some (.forward inbound)
  | discard => none

theorem handling?_ofMessage (m : Message) : (Route.ofMessage m).handling? = m.handling? := by
  cases m with
  | request id method params => rfl
  | notification method params => rfl
  | response id outcome =>
    cases id with
    | int n =>
      rw [Route.ofMessage]
      by_cases h : 0 ≤ n ∧ n < Route.idBound
      · have hid : Route.callId? (.int n) = some n.toNat := if_pos h
        rw [hid]
        cases outcome with
        | result v => exact (if_pos h).symm
        | error e => exact (if_pos h).symm
      · have hid : Route.callId? (.int n) = none := if_neg h
        rw [hid]
        exact (if_neg h).symm
    | _ => rfl

theorem handling?_ofFrame (v : Json) : (Route.ofFrame v).handling? = (Frame.Event.frame v).handling? := by
  rw [Route.ofFrame, Frame.Event.handling?]
  cases Message.ofJson v with
  | ok m => exact handling?_ofMessage m
  | error e => rfl

/-! ## The rules of reading -/

inductive Reading where
  | listening
  | holding (handling : Handling)
  | ending
  | terminating
  | closed
  | elsewhere

namespace Reading

def ofEvent (event : Frame.Event) : Reading :=
  if event.isLast then ending
  else
    match event.handling? with
    | some handling => holding handling
    | none => listening

def Allows : Reading → Action → Prop
  | listening, a => a = .nextFrame
  | holding handling, a => a = handling.action
  | ending, a => ∃ reason, a = .closeCalls reason
  | terminating, a => a = .terminate
  | closed, _ => False
  | elsewhere, a => a.service? ≠ some .reader ∧ ∀ phase, a = .spawn phase → phase.service? ≠ some .reader

def after : Reading → (a : Action) → a.Answer → Reading
  | listening, .nextFrame, event => ofEvent event
  | holding _, _, _ => listening
  | ending, _, _ => terminating
  | terminating, _, _ => closed
  | place, _, _ => place

def Fits : Next → Reading → Prop
  | .finish _, place => place = closed ∨ place = elsewhere
  | .resume phase, place =>
    place = listening ∧ phase = .reading ∨ place = elsewhere ∧ phase.service? ≠ some .reader

def ofPhase : Phase → Reading
  | .reading => listening
  | _ => elsewhere

def rules : Rules Reading :=
  ⟨Allows, after⟩

/-! ## Keeping to them -/

theorem reserves_elsewhere : rules.Reserves elsewhere .reader :=
  fun _ hs hp => ⟨⟨hs, hp⟩, fun _ => rfl⟩

theorem keeps_of_stays {service : Option Service} {r : Routine Next} (hs : service ≠ some .reader)
    (h : rules.Stays elsewhere service r) : r.Keeps rules elsewhere Fits :=
  h.keeps (fun _ => .inr rfl) fun _ hp _ => .inr ⟨rfl, hp ▸ hs⟩

theorem keeps_operation (o : ClientOptions) (op : Operation) : (op.routine o).Keeps rules elsewhere Fits :=
  keeps_of_stays (by simp) (reserves_elsewhere.stays_operation o op)

theorem keeps_endSession (reason : String) :
    (do endSession reason; return .over : Routine Next).Keeps rules ending Fits :=
  ⟨⟨reason, rfl⟩, fun _ => ⟨rfl, fun _ => .inl rfl⟩⟩

theorem keeps_reading : reading.Keeps rules listening Fits := by
  refine ⟨rfl, ?_⟩
  intro event
  change Routine.Keeps rules _ (ofEvent event) Fits
  cases event with
  | frame v =>
    have hplace : ofEvent (.frame v) = match (Route.ofFrame v).handling? with
        | some handling => holding handling
        | none => listening := by
      rw [handling?_ofFrame]
      rfl
    rw [hplace]
    change Routine.Keeps rules (deliver (.ofFrame v) >>= fun _ => return .resume .reading) _ Fits
    cases Route.ofFrame v with
    | reply id reply => exact ⟨rfl, fun _ => .inl ⟨rfl, rfl⟩⟩
    | forward inbound => exact ⟨rfl, fun _ => .inl ⟨rfl, rfl⟩⟩
    | discard => exact .inl ⟨rfl, rfl⟩
  | malformed flaw => exact ⟨rfl, fun _ => .inl ⟨rfl, rfl⟩⟩
  | ended => exact keeps_endSession _
  | fault cut => exact keeps_endSession _

theorem ofPhase_eq_elsewhere {p : Phase} (hp : p.service? ≠ some .reader) : ofPhase p = elsewhere := by
  cases p with
  | reading => exact absurd rfl hp
  | _ => rfl

theorem keeps_phase (p : Phase) : p.routine.Keeps rules (ofPhase p) Fits := by
  by_cases hp : p.service? = some .reader
  · cases p with
    | reading => exact keeps_reading
    | _ => cases hp
  · rw [ofPhase_eq_elsewhere hp]
    exact keeps_of_stays hp (reserves_elsewhere.stays_phase hp)

def placement : Placement rules where
  Admits _ := True
  operation _ := elsewhere
  phase := ofPhase
  Fits := Fits
  keeps_operation o op _ := keeps_operation o op
  keeps_phase := keeps_phase

theorem not_spawn {place : Reading} {phase : Phase} (ha : place.Allows (.spawn phase)) :
    place = elsewhere ∧ phase.service? ≠ some .reader := by
  cases place with
  | elsewhere => exact ⟨rfl, ha.2 _ rfl⟩
  | holding handling => cases handling <;> cases ha
  | ending =>
    obtain ⟨_, he⟩ := ha
    cases he
  | _ => cases ha

theorem excludes : placement.Excludes 1 elsewhere where
  operation _ := rfl
  after _ _ _ := rfl
  spawn _ _ ha := ofPhase_eq_elsewhere (not_spawn ha).2
  resume _ hf := by
    rcases hf with ⟨he, -⟩ | ⟨-, hp⟩
    · cases he
    · exact ofPhase_eq_elsewhere hp

end Reading

end Liaison
