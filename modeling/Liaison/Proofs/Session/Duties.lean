import Liaison.Session.Machine

/-!
# Duties

A session with a writer and a reader, and any number of tasks that call, notify, cancel, close the stream
or end the session. Every task has a duty, which tells how far it has come and what is left to do.
-/

namespace Liaison

structure Order where
  method : String
  params : Option Json
  timeout : Option Nat
deriving DecidableEq

def Order.frame (o : Order) (id : Nat) : Json :=
  (Message.request (.ofNat id) o.method o.params).toJson

def Order.late (o : Order) : Result :=
  .error (.timeout o.method (o.timeout.getD 0))

/-! ## Calls -/

inductive CallStage where
  | numbering
  | timing (id : Nat)
  | registering (id : Nat) (limit : Option Nat)
  | handing (id : Nat) (limit : Option Nat)
  | sent (id : Nat) (limit : Option Nat) (ticket : Nat)
  | givingUp (id : Nat) (e : CallError)
  | waiting (id : Nat) (limit : Option Nat)
  | expiring (id : Nat)
  | collecting (id : Nat)
  | ended (result : Result)

namespace CallStage

def told (id : Nat) (limit : Option Nat) : Receipt → CallStage
  | .written => waiting id limit
  | .failed reason => givingUp id (.transport ("write failed: " ++ reason))
  | .dropped => givingUp id writerClosed

def rank : CallStage → Nat
  | numbering => 8
  | timing _ => 7
  | registering _ _ => 6
  | handing _ _ => 5
  | sent _ _ _ => 4
  | waiting _ _ => 3
  | expiring _ => 2
  | givingUp _ _ => 1
  | collecting _ => 1
  | ended _ => 0

theorem rank_told (id : Nat) (limit : Option Nat) (receipt : Receipt) : (told id limit receipt).rank ≤ 3 := by
  cases receipt <;> simp [told, rank]

def routine (o : Order) : CallStage → Routine Next
  | numbering => .step .nextId fun id => (timing id).routine o
  | timing id => .step (.deadline o.timeout) fun limit => (registering id limit).routine o
  | registering id limit =>
    .step (.register id) fun
      | .ok () => (handing id limit).routine o
      | .error e => (ended (.error e)).routine o
  | handing id limit =>
    .step (.enqueue (o.frame id)) fun
      | some ticket => (sent id limit ticket).routine o
      | none => (givingUp id writerClosed).routine o
  | sent id limit ticket => .step (.awaitReceipt ticket) fun receipt => (told id limit receipt).routine o
  | givingUp id e => .step (.abandon id) fun _ => (ended (.error e)).routine o
  | waiting id limit =>
    .step (.awaitReply id limit) fun
      | some reply => (ended (reply.map .answer)).routine o
      | none => (expiring id).routine o
  | expiring id =>
    .step (.expire id) fun
      | true => (ended o.late).routine o
      | false => (collecting id).routine o
  | collecting id =>
    .step (.collect id) fun
      | some reply => (ended (reply.map .answer)).routine o
      | none => (ended o.late).routine o
  | ended result => .done (.finish result)
termination_by s => s.rank
decreasing_by
  all_goals simp only [rank]
  all_goals first
    | decide
    | exact Nat.lt_succ_of_le (rank_told _ _ _)

theorem routine_waiting (o : Order) (id : Nat) (limit : Option Nat) :
    finishing .answer (awaitAnswer o.method o.timeout limit id) = (waiting id limit).routine o := by
  rw [routine]
  refine Routine.step_congr (.awaitReply id limit) ?_
  intro reply
  cases reply with
  | some reply =>
    simp only [routine]
    cases reply <;> rfl
  | none =>
    simp only [routine]
    refine Routine.step_congr (.expire id) ?_
    intro expired
    cases expired with
    | true => rfl
    | false =>
      refine Routine.step_congr (.collect id) ?_
      intro reply
      cases reply with
      | some reply => cases reply <;> rfl
      | none => rfl

theorem routine_numbering (o : Order) (options : ClientOptions) :
    (Operation.call o.method o.params o.timeout).routine options = numbering.routine o := by
  rw [routine]
  refine Routine.step_congr .nextId ?_
  intro id
  rw [routine]
  refine Routine.step_congr (.deadline o.timeout) ?_
  intro limit
  rw [routine]
  refine Routine.step_congr (.register id) ?_
  intro registered
  cases registered with
  | error e => simp only [routine]; rfl
  | ok _ =>
    simp only [routine]
    refine Routine.step_congr (.enqueue (o.frame id)) ?_
    intro ticket
    cases ticket with
    | none => rfl
    | some ticket =>
      refine Routine.step_congr (.awaitReceipt ticket) ?_
      intro receipt
      cases receipt with
      | written => exact routine_waiting o id limit
      | failed reason => simp only [told, routine]; rfl
      | dropped => simp only [told, routine]; rfl

end CallStage

/-! ## All duties -/

inductive Duty where
  | call (o : Order) (stage : CallStage)
  | notifying (method : String) (params : Option Json)
  | notified (ticket : Nat)
  | cancelling (id : Nat) (reason : String)
  | shutting
  | idle
  | holding (frame : Json) (ticket : Nat)
  | telling (ticket : Nat) (result : Except String Unit)
  | closingOutput
  | stopping
  | listening
  | delivering (id : Nat) (reply : Reply)
  | forwarding (inbound : Inbound)
  | failing (reason : String) (isWriter : Bool)
  | terminating (isWriter : Bool)
  | resuming (isWriter : Bool)
  | ended (result : Result)

namespace Duty

def toldBy : Except String Unit → Duty
  | .ok () => resuming true
  | .error reason => failing ("write to server failed: " ++ reason) true

def receiptFor : Except String Unit → Receipt
  | .ok () => .written
  | .error reason => .failed reason

def onRoute : Route → Duty
  | .reply id reply => delivering id reply
  | .forward inbound => forwarding inbound
  | .discard => resuming false

def onEvent : Frame.Event → Duty
  | .frame v => onRoute (.ofFrame v)
  | .malformed flaw => forwarding (.undecodable flaw.message)
  | .ended => failing "server closed its output stream" false
  | .fault cut => failing ("read from server failed: " ++ cut.message) false

def toldOf : Receipt → Result
  | .written => .ok .nothing
  | .failed reason => .error (.transport ("write failed: " ++ reason))
  | .dropped => .error writerClosed

def nothing : Result := .ok .nothing

def onEnd : (isWriter : Bool) → Duty
  | true => stopping
  | false => ended nothing

def anew : (isWriter : Bool) → Duty
  | true => idle
  | false => listening

def phaseOf : (isWriter : Bool) → Phase
  | true => .writing
  | false => .reading

/-- How many steps there are at most before the task ends or begins anew. -/
def rank : Duty → Nat
  | call _ stage => stage.rank
  | notifying _ _ => 2
  | notified _ => 1
  | cancelling _ _ => 1
  | shutting => 1
  | idle => 6
  | holding _ _ => 5
  | telling _ _ => 4
  | closingOutput => 2
  | stopping => 1
  | listening => 4
  | delivering _ _ => 1
  | forwarding _ => 1
  | failing _ _ => 3
  | terminating _ => 2
  | resuming _ => 0
  | ended _ => 0

theorem rank_toldBy (result : Except String Unit) : (toldBy result).rank ≤ 3 := by
  cases result <;> simp [toldBy, rank]

theorem rank_onEvent (event : Frame.Event) : (onEvent event).rank ≤ 3 := by
  cases event with
  | frame v =>
    rw [onEvent]
    cases Route.ofFrame v <;> simp [onRoute, rank]
  | malformed flaw => simp [onEvent, rank]
  | ended => simp [onEvent, rank]
  | fault cut => simp [onEvent, rank]

theorem rank_onEnd (isWriter : Bool) : (onEnd isWriter).rank ≤ 1 := by
  cases isWriter <;> simp [onEnd, rank]

def routine : Duty → Routine Next
  | call o stage => stage.routine o
  | notifying method params =>
    .step (.enqueue (Message.notification method params).toJson) fun
      | some ticket => (notified ticket).routine
      | none => (ended (.error writerClosed)).routine
  | notified ticket => .step (.awaitReceipt ticket) fun receipt => (ended (toldOf receipt)).routine
  | cancelling id reason => .step (.cancel id reason) fun cancelled => (ended (.ok (.flag cancelled))).routine
  | shutting => .step .enqueueClose fun _ => (ended nothing).routine
  | idle =>
    .step .nextErrand fun
      | .send frame ticket => (holding frame ticket).routine
      | .close => closingOutput.routine
  | holding frame ticket => .step (.write frame) fun result => (telling ticket result).routine
  | telling ticket result => .step (.giveReceipt ticket (receiptFor result)) fun _ => (toldBy result).routine
  | closingOutput => .step .closeOutput fun _ => stopping.routine
  | stopping => .step .stopWriting fun _ => (ended nothing).routine
  | listening => .step .nextFrame fun event => (onEvent event).routine
  | delivering id reply => .step (.fulfill id reply) fun _ => (resuming false).routine
  | forwarding inbound => .step (.forward inbound) fun _ => (resuming false).routine
  | failing reason isWriter => .step (.closeCalls reason) fun _ => (terminating isWriter).routine
  | terminating isWriter => .step .terminate fun _ => (onEnd isWriter).routine
  | resuming isWriter => .done (.resume (phaseOf isWriter))
  | ended result => .done (.finish result)
termination_by d => d.rank
decreasing_by
  all_goals simp only [rank]
  all_goals first
    | decide
    | exact Nat.lt_succ_of_le (rank_toldBy _)
    | exact Nat.lt_succ_of_le (rank_onEvent _)
    | exact Nat.lt_succ_of_le (rank_onEnd _)

-- the equations are derived here, once, and not by each of the following proofs at the same time
attribute [local simp] routine

theorem routine_ending (reason : String) :
    (do endSession reason; return .over : Routine Next) = (failing reason false).routine := by
  simp only [routine, onEnd]
  rfl

theorem routine_writing : Liaison.writing = idle.routine := by
  rw [routine]
  refine Routine.step_congr .nextErrand ?_
  intro errand
  cases errand with
  | close => simp only [routine]; rfl
  | send frame ticket =>
    simp only [routine]
    refine Routine.step_congr (.write frame) ?_
    intro result
    cases result
    all_goals
      simp only [receiptFor, toldBy, onEnd, routine]
      rfl

theorem routine_reading : Liaison.reading = listening.routine := by
  rw [routine]
  refine Routine.step_congr .nextFrame ?_
  intro event
  cases event with
  | frame v =>
    change (Routine.bind (deliver (.ofFrame v)) fun _ => Routine.done (Next.resume .reading)) = _
    rw [onEvent]
    cases Route.ofFrame v
    all_goals
      simp only [onRoute, routine]
      rfl
  | malformed flaw => simp only [onEvent, routine]; rfl
  | ended => simp only [onEvent, onEnd, routine]; rfl
  | fault cut => simp only [onEvent, onEnd, routine]; rfl

theorem routine_anew (isWriter : Bool) : (phaseOf isWriter).routine = (anew isWriter).routine := by
  cases isWriter with
  | true => exact routine_writing
  | false => exact routine_reading

theorem routine_notifying (method : String) (params : Option Json) (o : ClientOptions) :
    (Operation.notify method params).routine o = (notifying method params).routine := by
  rw [routine]
  refine Routine.step_congr (.enqueue _) ?_
  intro ticket
  cases ticket with
  | none => simp only [routine]; rfl
  | some ticket =>
    simp only [routine]
    refine Routine.step_congr (.awaitReceipt ticket) ?_
    intro receipt
    cases receipt <;> rfl

theorem routine_cancelling (id : Nat) (reason : String) (o : ClientOptions) :
    (Operation.cancel id reason).routine o = (cancelling id reason).routine := by
  simp only [routine]
  rfl

theorem routine_shutting (o : ClientOptions) : Operation.closeStream.routine o = shutting.routine := by
  simp only [routine]
  rfl

end Duty

end Liaison
