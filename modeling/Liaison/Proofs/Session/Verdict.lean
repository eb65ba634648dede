import Liaison.Proofs.Message.RoundTrip
import Liaison.Proofs.Session.Duties
import Liaison.Proofs.Session.History

/-!
# Verdicts

A history tells which numbers the calls took, what became of the frames of their requests, and which
responses were read and handed on. It also tells the verdict on a call: what the caller has to get.
-/

namespace Liaison

/-! ## What a deed tells -/

/-- The id of the request that a frame is, if it is one. -/
def requestId? (frame : Json) : Option Nat :=
  match Message.ofJson frame with
  | .ok (.request id _ _) => Route.callId? id
  | _ => none

def Deed.number? : Deed → Option (TaskId × Nat)
  | ⟨t, .nextId, id⟩ => some (t, id)
  | _ => none

/-- A request is written, or as much of it as there is room for. -/
def Deed.write? : Deed → Option (Nat × Except String Unit)
  | ⟨_, .write frame, result⟩ => (requestId? frame).map (·, result)
  | _ => none

def Route.reply? : Route → Option (Nat × Reply)
  | reply id r => some (id, r)
  | _ => none

def Deed.response? : Deed → Option (Nat × Reply)
  | ⟨_, .nextFrame, .frame v⟩ => (Route.ofFrame v).reply?
  | _ => none

def Deed.fulfillment? : Deed → Option (Nat × Reply)
  | ⟨_, .fulfill id reply, _⟩ => some (id, reply)
  | _ => none

def numbers (h : History) : List (TaskId × Nat) :=
  h.filterMap Deed.number?

def writes (h : History) : List (Nat × Except String Unit) :=
  h.filterMap Deed.write?

def responses (h : History) : List (Nat × Reply) :=
  h.filterMap Deed.response?

def fulfillments (h : History) : List (Nat × Reply) :=
  h.filterMap Deed.fulfillment?

section

variable {d : Deed} {h : History} {id : Nat}

theorem numbers_concat (h : History) (d : Deed) : numbers (h ++ [d]) = numbers h ++ d.number?.toList := by
  rw [numbers, List.filterMap_append]
  cases hd : d.number? <;> simp [numbers, hd]

theorem writes_concat (h : History) (d : Deed) : writes (h ++ [d]) = writes h ++ d.write?.toList := by
  rw [writes, List.filterMap_append]
  cases hd : d.write? <;> simp [writes, hd]

theorem responses_concat (h : History) (d : Deed) : responses (h ++ [d]) = responses h ++ d.response?.toList := by
  rw [responses, List.filterMap_append]
  cases hd : d.response? <;> simp [responses, hd]

theorem fulfillments_concat (h : History) (d : Deed) :
    fulfillments (h ++ [d]) = fulfillments h ++ d.fulfillment?.toList := by
  rw [fulfillments, List.filterMap_append]
  cases hd : d.fulfillment? <;> simp [fulfillments, hd]

/-! ## Requests and their ids -/

theorem callId?_ofNat {id : Nat} (h : id < Route.idBound) : Route.callId? (.ofNat id) = some id := by
  have hid : (0 : Int) ≤ (id : Int) ∧ (id : Int) < (Route.idBound : Int) := by omega
  rw [Json.ofNat, Route.callId?, if_pos hid]
  rfl

theorem requestId?_frame (o : Order) {id : Nat} (h : id < Route.idBound) : requestId? (o.frame id) = some id := by
  have hm : Message.ofJson (o.frame id) = .ok (.request (.ofNat id) o.method o.params) := Message.ofJson_toJson trivial
  rw [requestId?, hm]
  exact callId?_ofNat h

theorem requestId?_notification (method : String) (params : Option Json) :
    requestId? (Message.notification method params).toJson = none := by
  have hm : Message.ofJson (Message.notification method params).toJson = .ok (.notification method params) :=
    Message.ofJson_toJson trivial
  rw [requestId?, hm]

/-! ## What becomes of a request -/

/-- What became of the request with an id, as its sender is told. What was not written is lost. -/
def fate (id : Nat) (h : History) : Receipt :=
  match (writes h).lookup id with
  | some result => Duty.receiptFor result
  | none => .dropped

theorem receiptFor_ne_dropped (result : Except String Unit) : Duty.receiptFor result ≠ .dropped := by
  intro hr
  cases result <;> cases hr

theorem lookup_of_fate (hf : fate id h = .dropped) : (writes h).lookup id = none := by
  unfold fate at hf
  split at hf
  · exact absurd hf (receiptFor_ne_dropped _)
  · rename_i hl
    exact hl

theorem fate_concat (hd : ∀ result, d.write? ≠ some (id, result)) : fate id (h ++ [d]) = fate id h := by
  have hl : d.write?.toList.lookup id = none := by
    cases hw : d.write? with
    | none => rfl
    | some p =>
      obtain ⟨i, result⟩ := p
      have hi : id ≠ i := by
        rintro rfl
        exact hd result hw
      rw [Option.toList_some, List.lookup_cons, beq_false_of_ne hi]
      rfl
  rw [fate, fate, writes_concat, List.lookup_append, hl, Option.or_none]

theorem fate_concat_of_write {result : Except String Unit} (hf : fate id h = .dropped)
    (hd : d.write? = some (id, result)) : fate id (h ++ [d]) = Duty.receiptFor result := by
  rw [fate, writes_concat, List.lookup_append, lookup_of_fate hf, hd]
  simp

theorem not_mem_writes (hf : fate id h = .dropped) : id ∉ (writes h).map Prod.fst := by
  intro hm
  obtain ⟨⟨i, result⟩, hp, rfl⟩ := List.mem_map.mp hm
  have hne : ∀ p ∈ writes h, ¬(i == p.1) = true := fun p hp' => by
    simpa using List.lookup_eq_none_iff.mp (lookup_of_fate hf) p hp'
  exact hne _ hp (beq_self_eq_true i)

end

/-! ## The verdict -/

/-- What the sender of a request gets if it was not written. -/
def Receipt.error? : Receipt → Option CallError
  | written => none
  | failed reason => some (.transport ("write failed: " ++ reason))
  | dropped => some writerClosed

/-- What the caller gets when its call is settled. Who gives up does not get anything. -/
def Settlement.result? (o : Order) : Settlement → Option Result
  | timedOut => some o.late
  | s => s.reply?.map fun reply => reply.map .answer

/-- What a call has to return. It is not told before the call is settled; if the registry did not take it in,
it was closed. -/
def verdict? (o : Order) (id : Nat) (h : History) : Option Result :=
  match standing id h with
  | .unknown => (closing? h).map fun reason => .error (.sessionClosed reason)
  | .waiting => none
  | .settled s =>
    match (fate id h).error? with
    | some e => some (.error e)
    | none => s.result? o

section

variable {o : Order} {d : Deed} {h : History} {id : Nat} {r : Result}

theorem closing?_concat_of_some {reason : String} (hc : closing? h = some reason) (d : Deed) :
    closing? (h ++ [d]) = some reason := by
  rw [closing?_concat, hc]
  rfl

/-- A verdict stands, unless the call is taken in again or its request is written. -/
theorem verdict?_concat (hv : verdict? o id h = some r) (hd : d.registers id = false)
    (hf : fate id (h ++ [d]) = fate id h) : verdict? o id (h ++ [d]) = some r := by
  unfold verdict? at hv ⊢
  rw [hf]
  cases hs : standing id h with
  | unknown =>
    rw [hs] at hv
    obtain ⟨reason, hc, rfl⟩ := Option.map_eq_some_iff.mp hv
    rw [standing_concat, hs, Standing.after, hd, if_neg Bool.false_ne_true, closing?_concat_of_some hc]
    rfl
  | waiting =>
    rw [hs] at hv
    cases hv
  | settled s =>
    rw [hs] at hv
    rw [standing_concat_of_settled hs]
    exact hv

theorem verdict?_of_refused {reason : String} (hs : standing id h = .unknown) (hc : closing? h = some reason) :
    verdict? o id h = some (.error (.sessionClosed reason)) := by
  rw [verdict?, hs, hc]
  rfl

theorem verdict?_of_unwritten {s : Settlement} {e : CallError} (hs : standing id h = .settled s)
    (hf : (fate id h).error? = some e) : verdict? o id h = some (.error e) := by
  rw [verdict?, hs]
  simp only [hf]

theorem verdict?_of_written {s : Settlement} (hs : standing id h = .settled s) (hf : fate id h = .written) :
    verdict? o id h = s.result? o := by
  rw [verdict?, hs]
  simp only [hf, Receipt.error?]

theorem result?_of_reply? {s : Settlement} {reply : Reply} (hr : s.reply? = some reply) :
    s.result? o = some (reply.map .answer) := by
  cases s with
  | timedOut => cases hr
  | _ => cases hr <;> rfl

end

end Liaison
