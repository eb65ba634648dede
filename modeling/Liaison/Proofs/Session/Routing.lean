import Liaison.Proofs.Message.RoundTrip
import Liaison.Proofs.Session.Verdict

/-!
# Answers to pending calls

A frame that answers a pending call settles it if its result or its error is understood. An error comes before
a result, and one that is no error of the protocol makes the whole frame one that cannot be understood: it is
handed on, and the call goes on waiting.
-/

namespace Liaison

/-! ## The way of an answer -/

/-- What the members of a response say to its caller. An error goes before a result. -/
inductive Answers (members : List (String × Json)) : Reply → Prop
  | result {v : Json} (he : Table.get? "error" members = none) (hr : Table.get? "result" members = some v) :
    Answers members (.ok v)
  | error {e : Json} {code : Int} {message : String} (he : Table.get? "error" members = some e)
    (ho : IsErrorObject e code message) : Answers members (.error (.server code message))

section

variable {members : List (String × Json)} {id : Nat} {reply : Reply}

theorem ofMessage_response (hb : id < Route.idBound) (outcome : Outcome) :
    Route.ofMessage (.response (.ofNat id) outcome) = .reply id (Route.replyOf outcome) := by
  rw [Route.ofMessage, callId?_ofNat hb]

theorem ofFrame_response (hm : Table.get? "method" members = none) (hi : Table.get? "id" members = some (.ofNat id))
    (hb : id < Route.idBound) : Route.ofFrame (.obj members) =
      match Message.outcome? (.obj members) with
      | .ok outcome => .reply id (Route.replyOf outcome)
      | .error e => .forward (.undecodable e.message) := by
  have hmessage : Message.ofJson (.obj members) = (Message.outcome? (.obj members)).map (.response (.ofNat id)) := by
    simp only [Message.ofJson, Json.member?, hm, hi]
  rw [Route.ofFrame, hmessage]
  cases Message.outcome? (.obj members) with
  | ok outcome => exact ofMessage_response hb outcome
  | error e => rfl

theorem answers_iff : Answers members reply ↔
    ∃ outcome, Message.outcome? (.obj members) = .ok outcome ∧ Route.replyOf outcome = reply := by
  constructor
  · intro h
    cases h with
    | @result v he hr => exact ⟨.result v, by simp only [Message.outcome?, Json.member?, he, hr], rfl⟩
    | @error e code message he ho =>
      have hd : ResponseError.decode e = .ok ⟨code, message, errorData? e⟩ := decode_eq_ok_iff.mpr ⟨ho, rfl⟩
      exact ⟨.error ⟨code, message, errorData? e⟩, by simp only [Message.outcome?, Json.member?, he, hd], rfl⟩
  · rintro ⟨outcome, ho, rfl⟩
    rw [Message.outcome?, Json.member?, Json.member?] at ho
    cases he : Table.get? "error" members with
    | none =>
      cases hr : Table.get? "result" members with
      | none => simp [he, hr] at ho
      | some v =>
        simp only [he, hr] at ho
        cases ho
        exact .result he hr
    | some e =>
      simp only [he] at ho
      cases hd : ResponseError.decode e with
      | error d => simp [hd] at ho
      | ok r =>
        simp only [hd] at ho
        cases ho
        exact .error he (decode_eq_ok_iff.mp hd).1

theorem exists_answers_iff (ha : (Table.get? "result" members).isSome ∨ (Table.get? "error" members).isSome) :
    (∃ reply, Answers members reply) ↔
      ∀ e, Table.get? "error" members = some e → ∃ code message, IsErrorObject e code message := by
  constructor
  · rintro ⟨reply, h⟩ e he
    cases h with
    | result hn hr => simp [hn] at he
    | @error _ code message hs ho =>
      cases hs.symm.trans he
      exact ⟨code, message, ho⟩
  · intro h
    cases he : Table.get? "error" members with
    | some e =>
      obtain ⟨code, message, ho⟩ := h e he
      exact ⟨_, .error he ho⟩
    | none =>
      rw [he, Option.isSome_none, or_iff_left Bool.false_ne_true] at ha
      obtain ⟨v, hv⟩ := Option.isSome_iff_exists.mp ha
      exact ⟨_, .result he hv⟩

theorem ofFrame_eq_reply_iff (hm : Table.get? "method" members = none)
    (hi : Table.get? "id" members = some (.ofNat id)) (hb : id < Route.idBound) :
    Route.ofFrame (.obj members) = .reply id reply ↔ Answers members reply := by
  rw [ofFrame_response hm hi hb, answers_iff]
  cases Message.outcome? (.obj members) <;> simp

theorem exists_forward (hm : Table.get? "method" members = none) (hi : Table.get? "id" members = some (.ofNat id))
    (hb : id < Route.idBound) (hn : ∀ reply, ¬ Answers members reply) :
    ∃ reason, Route.ofFrame (.obj members) = .forward (.undecodable reason) := by
  rw [ofFrame_response hm hi hb]
  cases h : Message.outcome? (.obj members) with
  | ok outcome => exact absurd (answers_iff.mpr ⟨outcome, h, rfl⟩) (hn _)
  | error e => exact ⟨e.message, rfl⟩

end

/-! ## What becomes of the call -/

/-- What comes of a routine that a task carries out with nothing in between. There is nothing if it has to wait. -/
def Routine.atOnce? {α : Type} (m : Machine) (t : TaskId) : Routine α → Option (α × Machine)
  | .done a => some (a, m)
  | .step action next => (m.perform t action).bind fun p => (next p.1).atOnce? p.2 t

/-- A response under the id of a pending call settles it just if the error that it brings, if it brings one, is an
error of the protocol, and then the caller gets what the response says. Otherwise the response is handed on as
one that cannot be understood, and the call goes on waiting. -/
theorem settled_deliver_iff (m : Machine) (t : TaskId) {members : List (String × Json)} {id : Nat}
    (hm : Table.get? "method" members = none) (hi : Table.get? "id" members = some (.ofNat id))
    (hb : id < Route.idBound) (hp : id ∈ m.registry.pending)
    (ha : (Table.get? "result" members).isSome ∨ (Table.get? "error" members).isSome) :
    ∃ m', (deliver (.ofFrame (.obj members))).atOnce? m t = some ((), m') ∧
      (id ∉ m'.registry.pending ↔
        ∀ e, Table.get? "error" members = some e → ∃ code message, IsErrorObject e code message) ∧
      (∀ reply, Answers members reply → m'.registry = m.registry.settle id reply) ∧
      (id ∈ m'.registry.pending → ∃ reason, m' = { m with inbound := m.inbound ++ [.undecodable reason] }) := by
  rw [← exists_answers_iff ha]
  by_cases h : ∃ reply, Answers members reply
  · obtain ⟨reply, hr⟩ := h
    have hroute := (ofFrame_eq_reply_iff hm hi hb).mpr hr
    have hfulfill : m.registry.fulfill id reply = (m.registry.settle id reply, .delivered) := by
      rw [Registry.fulfill, if_pos hp]
    have hsettled : id ∉ (m.registry.settle id reply).pending := by simp [Registry.settle]
    refine ⟨{ m with registry := m.registry.settle id reply }, ?_, ?_, ?_, ?_⟩
    · rw [hroute]
      change some ((), { m with registry := (m.registry.fulfill id reply).1 }) = _
      rw [hfulfill]
    · exact ⟨fun _ => ⟨reply, hr⟩, fun _ => hsettled⟩
    · intro reply' hr'
      have hsame := hroute.symm.trans ((ofFrame_eq_reply_iff hm hi hb).mpr hr')
      cases hsame
      rfl
    · intro hpending
      exact absurd hpending hsettled
  · have hn : ∀ reply, ¬ Answers members reply := fun reply hr => h ⟨reply, hr⟩
    obtain ⟨reason, hroute⟩ := exists_forward hm hi hb hn
    refine ⟨{ m with inbound := m.inbound ++ [.undecodable reason] }, ?_, ?_, ?_, ?_⟩
    · rw [hroute]
      rfl
    · exact ⟨fun hne => absurd hp hne, fun hr => absurd hr h⟩
    · intro reply hr
      exact absurd hr (hn reply)
    · intro _
      exact ⟨reason, rfl⟩

/-- A session in which the call with the number 7 is pending. -/
def waitingForSeven : Machine :=
  { Machine.blank ⟨"rust", "rust", [], none, 1, 1, .null⟩ ⟨[], []⟩ .ready with registry := ⟨[7], [], none, []⟩ }

/-- A result beside an error that is null leaves the call waiting. -/
theorem settled_deliver_nullError :
    let members := [("error", Json.null), ("id", .ofNat 7), ("result", .int 5)]
    Table.get? "method" members = none ∧ Table.get? "id" members = some (.ofNat 7) ∧ 7 < Route.idBound ∧
      7 ∈ waitingForSeven.registry.pending ∧ (Table.get? "result" members).isSome ∧
      ∃ m', (deliver (.ofFrame (.obj members))).atOnce? waitingForSeven 1 = some ((), m') ∧
        7 ∈ m'.registry.pending ∧ ∃ reason, m'.inbound = [.undecodable reason] := by
  have hb : 7 < Route.idBound := by decide
  refine ⟨rfl, rfl, hb, by decide, rfl, ?_⟩
  obtain ⟨m', hdone, hsettled, -, hforward⟩ := @settled_deliver_iff waitingForSeven 1
    [("error", Json.null), ("id", .ofNat 7), ("result", .int 5)] 7 rfl rfl hb (by decide) (.inl rfl)
  have hpending : 7 ∈ m'.registry.pending := by
    by_contra hn
    obtain ⟨code, message, ho⟩ := hsettled.mp hn .null rfl
    cases ho
  obtain ⟨reason, hm'⟩ := hforward hpending
  exact ⟨m', hdone, hpending, reason, by rw [hm']; rfl⟩

end Liaison
