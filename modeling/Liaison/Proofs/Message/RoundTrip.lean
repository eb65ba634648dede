import Liaison.Message
import Liaison.Proofs.Json.Decode

/-!
# Reading messages back

A message that was written is read as it was, if its error has a code of 64 bits and no data that is null. A frame
that is read as a message need not look like the one that is written for it: it may have more members, and its error
may be a list. But both say the same message.
-/

namespace Liaison

/-! ## Errors of responses -/

/-- The fields of an error: a code of 64 bits, a message, and data if there is any. -/
inductive IsErrorObject : Json → Int → String → Prop
  | named {members : List (String × Json)} {code : Int} {message : String}
    (hc : Table.get? "code" members = some (.int code)) (hm : Table.get? "message" members = some (.str message))
    (hl : -0x8000000000000000 ≤ code) (hu : code ≤ 0x7FFFFFFFFFFFFFFF) : IsErrorObject (.obj members) code message
  | listed {code : Int} {message : String} {data : List Json} (hd : data.length ≤ 1)
    (hl : -0x8000000000000000 ≤ code) (hu : code ≤ 0x7FFFFFFFFFFFFFFF) :
    IsErrorObject (.arr (.int code :: .str message :: data)) code message

def present? : Option Json → Option Json
  | some .null => none
  | data => data

/-- The data of an error, by its name or by its place. -/
def errorData? : Json → Option Json
  | .obj members => present? (Table.get? "data" members)
  | .arr items => present? items[2]?
  | _ => none

theorem present?_ne_null (data : Option Json) : present? data ≠ some .null := by
  unfold present?
  split
  · simp
  · rename_i h
    exact h

theorem present?_of_ne_null {data : Option Json} (h : data ≠ some .null) : present? data = data := by
  unfold present?
  split
  · exact absurd rfl h
  · rfl

theorem errorData?_ne_null (v : Json) : errorData? v ≠ some .null := by
  unfold errorData?
  split
  · exact present?_ne_null _
  · exact present?_ne_null _
  · simp

section

variable {v : Json} {code : Int} {message : String} {e : ResponseError}

theorem i64_eq_ok_iff : Decoder.i64 v = .ok code ↔
    v = .int code ∧ -0x8000000000000000 ≤ code ∧ code ≤ 0x7FFFFFFFFFFFFFFF := by
  cases v with
  | int n =>
    rw [Decoder.i64, Decoder.integer]
    split
    · simp
      omega
    · simp
      omega
  | _ => simp [Decoder.i64, Decoder.integer]

theorem optional_ok (v : Json) : Decoder.optional (.ok : Decoder Json) v = .ok (present? (some v)) := by
  cases v <;> rfl

theorem find_data (lookup : String → Option Json) :
    (Record.fieldOpt "data" (.ok : Decoder Json)).find lookup = .all (present? (lookup "data")) := by
  cases h : lookup "data" with
  | none => simp [Record.fieldOpt, Record.fieldWith, h, present?]
  | some v => simp [Record.fieldOpt, Record.fieldWith, h, optional_ok]

theorem decode_members_iff {members : List (String × Json)} :
    ResponseError.decode (.obj members) = .ok e ↔
      IsErrorObject (.obj members) e.code e.message ∧ e.data = errorData? (.obj members) := by
  have hfind : ResponseError.decode (.obj members) = .ok e ↔
      ((((Fields.all ResponseError.mk).apply ((Record.field "code" .i64).find fun n => Table.get? n members)).apply
        ((Record.field "message" .string).find fun n => Table.get? n members)).apply
          ((Record.fieldOpt "data" (.ok : Decoder Json)).find fun n => Table.get? n members)) = .all e :=
    Record.result_eq_ok_iff
  rw [hfind, find_data]
  constructor
  · intro h
    obtain ⟨g₂, d, h₂, hd, e₂⟩ := Record.apply_eq_all_iff.mp h
    obtain ⟨g₁, m, h₁, hm, e₁⟩ := Record.apply_eq_all_iff.mp h₂
    obtain ⟨g₀, c, h₀, hc, e₀⟩ := Record.apply_eq_all_iff.mp h₁
    cases h₀
    cases hd
    rw [← e₁, ← e₀] at e₂
    subst e₂
    obtain ⟨v, hv, hc⟩ := Record.find_field_iff.mp hc
    obtain ⟨w, hw, hm⟩ := Record.find_field_iff.mp hm
    obtain ⟨rfl, hl, hu⟩ := i64_eq_ok_iff.mp hc
    rw [string_eq_ok_iff] at hm
    subst hm
    exact ⟨.named hv hw hl hu, rfl⟩
  · rintro ⟨ho, hd⟩
    cases ho with
    | named hc hm hl hu =>
      have hcode : (Record.field "code" .i64).find (fun n => Table.get? n members) = .all e.code :=
        Record.find_field_iff.mpr ⟨_, hc, i64_eq_ok_iff.mpr ⟨rfl, hl, hu⟩⟩
      have hmessage : (Record.field "message" .string).find (fun n => Table.get? n members) = .all e.message :=
        Record.find_field_iff.mpr ⟨_, hm, string_eq_ok_iff.mpr rfl⟩
      rw [hcode, hmessage]
      exact congrArg (fun data => Fields.all (ResponseError.mk e.code e.message data)) hd.symm

theorem take_data_iff {data : Option Json} {expected : String} {taken : Nat} {items : List Json} :
    (Record.fieldOpt "data" (.ok : Decoder Json)).take expected taken items = .ok (data, []) ↔
      items.length ≤ 1 ∧ data = present? items.head? := by
  cases items with
  | nil => simp [Record.fieldOpt, Record.fieldWith, present?, eq_comm]
  | cons v rest => simp [Record.fieldOpt, Record.fieldWith, optional_ok, Except.map, and_comm, eq_comm]

theorem decode_items_iff {items : List Json} :
    ResponseError.decode (.arr items) = .ok e ↔
      IsErrorObject (.arr items) e.code e.message ∧ e.data = errorData? (.arr items) := by
  constructor
  · intro h
    obtain ⟨g₂, d, after, h₂, hd, e₂⟩ := Record.take_seq_iff.mp (Record.decode_arr_iff.mp h)
    obtain ⟨g₁, m, mid, h₁, hm, e₁⟩ := Record.take_seq_iff.mp h₂
    obtain ⟨c, hc, e₀⟩ := Record.take_map_iff.mp h₁
    rw [← e₁, ← e₀] at e₂
    subst e₂
    obtain ⟨v, rfl, hcode⟩ := Record.take_field_iff.mp hc
    obtain ⟨w, rfl, hmessage⟩ := Record.take_field_iff.mp hm
    obtain ⟨rfl, hl, hu⟩ := i64_eq_ok_iff.mp hcode
    obtain ⟨hlen, rfl⟩ := take_data_iff.mp hd
    rw [string_eq_ok_iff.mp hmessage]
    exact ⟨.listed hlen hl hu, by simp [errorData?, List.head?_eq_getElem?]⟩
  · rintro ⟨ho, hd⟩
    cases ho with
    | @listed _ _ rest hrest hl hu =>
      have hdata : e.data = present? rest.head? := by rw [hd, List.head?_eq_getElem?]; rfl
      refine Record.decode_arr_iff.mpr (Record.take_seq_iff.mpr
        ⟨ResponseError.mk e.code e.message, e.data, rest, ?_, take_data_iff.mpr ⟨hrest, hdata⟩, rfl⟩)
      refine Record.take_seq_iff.mpr ⟨ResponseError.mk e.code, e.message, .str e.message :: rest, ?_, ?_, rfl⟩
      · refine Record.take_map_iff.mpr ⟨e.code, ?_, rfl⟩
        exact Record.take_field_iff.mpr ⟨_, rfl, i64_eq_ok_iff.mpr ⟨rfl, hl, hu⟩⟩
      · exact Record.take_field_iff.mpr ⟨_, rfl, string_eq_ok_iff.mpr rfl⟩

/-- The error of a response is understood if it is one of the protocol. -/
theorem decode_eq_ok_iff : ResponseError.decode v = .ok e ↔
    IsErrorObject v e.code e.message ∧ e.data = errorData? v := by
  cases v with
  | obj members => exact decode_members_iff
  | arr items => exact decode_items_iff
  | _ =>
    constructor
    · intro h
      cases h
    · rintro ⟨ho, -⟩
      cases ho

end

/-- The error fits into the protocol and its data, if it has any, is not null. -/
def ResponseError.IsProper (e : ResponseError) : Prop :=
  -0x8000000000000000 ≤ e.code ∧ e.code ≤ 0x7FFFFFFFFFFFFFFF ∧ e.data ≠ some .null

theorem ResponseError.isProper_of_decode {v : Json} {e : ResponseError} (h : decode v = .ok e) : e.IsProper := by
  obtain ⟨ho, hd⟩ := decode_eq_ok_iff.mp h
  have hdata : e.data ≠ some .null := hd ▸ errorData?_ne_null v
  cases ho with
  | named _ _ hl hu => exact ⟨hl, hu, hdata⟩
  | listed _ hl hu => exact ⟨hl, hu, hdata⟩

theorem ResponseError.isErrorObject_toJson {e : ResponseError} (h : e.IsProper) :
    IsErrorObject e.toJson e.code e.message := by
  refine .named ?_ ?_ h.1 h.2.1
  · cases e.data <;> simp [Table.ofList]
  · cases e.data <;> simp [Table.ofList]

theorem ResponseError.errorData?_toJson {e : ResponseError} (h : e.IsProper) : errorData? e.toJson = e.data := by
  rw [toJson, Json.ofMembers, errorData?]
  cases hd : e.data with
  | none => simp [Table.ofList, present?]
  | some data =>
    have hne : some data ≠ some .null := hd ▸ h.2.2
    simp [Table.ofList, present?_of_ne_null hne]

/-! ## Written messages -/

namespace Message

def id? : Message → Option Json
  | request id _ _ => some id
  | notification _ _ => none
  | response id _ => some id

def method? : Message → Option String
  | request _ method _ => some method
  | notification method _ => some method
  | response _ _ => none

def params? : Message → Option Json
  | request _ _ params => params
  | notification _ params => params
  | response _ _ => none

theorem member?_toJson (m : Message) : m.toJson.member? "id" = m.id? ∧
    m.toJson.member? "method" = m.method?.map .str ∧ m.toJson.member? "params" = m.params? := by
  cases m with
  | request id method params =>
    cases params <;>
      simp [id?, method?, params?, toJson, members, paramsMember, Json.ofMembers, Json.member?, Table.ofList]
  | notification method params =>
    cases params <;>
      simp [id?, method?, params?, toJson, members, paramsMember, Json.ofMembers, Json.member?, Table.ofList]
  | response id outcome =>
    cases outcome <;> simp [id?, method?, params?, toJson, members, Json.ofMembers, Json.member?, Table.ofList]

end Message

/-! ## Frames and messages -/

/-- The frame has the members of the message. An error goes before a result, and other members do not count. -/
inductive Conveys (frame : Json) : Message → Prop
  | request {id : Json} {method : String} {params : Option Json} (hi : frame.member? "id" = some id)
    (hm : frame.member? "method" = some (.str method)) (hp : frame.member? "params" = params) :
    Conveys frame (.request id method params)
  | notification {method : String} {params : Option Json} (hi : frame.member? "id" = none)
    (hm : frame.member? "method" = some (.str method)) (hp : frame.member? "params" = params) :
    Conveys frame (.notification method params)
  | result {id v : Json} (hi : frame.member? "id" = some id) (hm : frame.member? "method" = none)
    (he : frame.member? "error" = none) (hr : frame.member? "result" = some v) :
    Conveys frame (.response id (.result v))
  | error {id v : Json} {e : ResponseError} (hi : frame.member? "id" = some id) (hm : frame.member? "method" = none)
    (he : frame.member? "error" = some v) (ho : IsErrorObject v e.code e.message) (hd : e.data = errorData? v) :
    Conveys frame (.response id (.error e))

namespace Message

variable {frame : Json} {m : Message}

theorem outcome?_result_iff {v : Json} : outcome? frame = .ok (.result v) ↔
    frame.member? "error" = none ∧ frame.member? "result" = some v := by
  rw [outcome?]
  cases frame.member? "error" with
  | none => cases frame.member? "result" <;> simp
  | some v => cases h : ResponseError.decode v <;> simp [h]

theorem outcome?_error_iff {e : ResponseError} : outcome? frame = .ok (.error e) ↔
    ∃ v, frame.member? "error" = some v ∧ ResponseError.decode v = .ok e := by
  rw [outcome?]
  cases frame.member? "error" with
  | none => cases frame.member? "result" <;> simp
  | some v => cases h : ResponseError.decode v <;> simp [h]

theorem exists_obj_of_member? {name : String} {v : Json} (h : frame.member? name = some v) :
    ∃ members, frame = .obj members := by
  cases frame with
  | obj members => exact ⟨members, rfl⟩
  | _ => cases h

theorem conveys_of_outcome? {id : Json} {outcome : Outcome} (hi : frame.member? "id" = some id)
    (hm : frame.member? "method" = none) (ho : outcome? frame = .ok outcome) : Conveys frame (response id outcome) := by
  cases outcome with
  | result v =>
    obtain ⟨he, hr⟩ := outcome?_result_iff.mp ho
    exact .result hi hm he hr
  | error e =>
    obtain ⟨v, he, hv⟩ := outcome?_error_iff.mp ho
    obtain ⟨hobject, hdata⟩ := decode_eq_ok_iff.mp hv
    exact .error hi hm he hobject hdata

theorem conveys_of_ofJson (h : ofJson frame = .ok m) : Conveys frame m := by
  cases frame with
  | obj members =>
    unfold ofJson at h
    simp only at h
    split at h
    · rename_i hi hm
      cases h
      exact .request hi hm rfl
    · rename_i hi hm
      cases h
      exact .notification hi hm rfl
    · cases h
    · rename_i hi hm
      cases ho : outcome? (.obj members) with
      | error e =>
        rw [ho] at h
        cases h
      | ok outcome =>
        rw [ho] at h
        cases h
        exact conveys_of_outcome? hi hm ho
    · cases h
  | _ => cases h

/-- A frame is read as the message that it conveys, and as no other. -/
theorem ofJson_eq_ok_iff : ofJson frame = .ok m ↔ Conveys frame m := by
  refine ⟨conveys_of_ofJson, fun h => ?_⟩
  cases h with
  | request hi hm hp =>
    obtain ⟨members, rfl⟩ := exists_obj_of_member? hi
    simp only [ofJson, hi, hm, hp]
  | notification hi hm hp =>
    obtain ⟨members, rfl⟩ := exists_obj_of_member? hm
    simp only [ofJson, hi, hm, hp]
  | result hi hm he hr =>
    obtain ⟨members, rfl⟩ := exists_obj_of_member? hi
    simp only [ofJson, hi, hm, outcome?_result_iff.mpr ⟨he, hr⟩]
    rfl
  | error hi hm he ho hd =>
    obtain ⟨members, rfl⟩ := exists_obj_of_member? hi
    simp only [ofJson, hi, hm, outcome?_error_iff.mpr ⟨_, he, decode_eq_ok_iff.mpr ⟨ho, hd⟩⟩]
    rfl

/-! ## Messages and frames -/

/-- The error of the message, if it is one, is proper. -/
def IsProper : Message → Prop
  | response _ (.error e) => e.IsProper
  | _ => True

theorem isProper_of_ofJson (h : ofJson frame = .ok m) : m.IsProper := by
  cases conveys_of_ofJson h with
  | request | notification | result => trivial
  | error hi hm he ho hd => exact ResponseError.isProper_of_decode (decode_eq_ok_iff.mpr ⟨ho, hd⟩)

theorem conveys_toJson (h : m.IsProper) : Conveys m.toJson m := by
  obtain ⟨hi, hm, hp⟩ := member?_toJson m
  cases m with
  | request id method params => exact .request hi hm hp
  | notification method params => exact .notification hi hm hp
  | response id outcome =>
    cases outcome with
    | result v =>
      refine .result hi hm ?_ ?_
      all_goals simp [toJson, members, Json.ofMembers, Json.member?, Table.ofList]
    | error e =>
      refine .error hi hm ?_ (ResponseError.isErrorObject_toJson h) (ResponseError.errorData?_toJson h).symm
      simp [toJson, members, Json.ofMembers, Json.member?, Table.ofList]

theorem ofJson_toJson (h : m.IsProper) : ofJson m.toJson = .ok m :=
  ofJson_eq_ok_iff.mpr (conveys_toJson h)

/-- A message that is written is read as it was unless its error is not proper, and the errors that are made or
read all are. The frame that is written for a message that was read says the same as the frame it was read from: both
have its id, its method, its parameters or its result, or none where it has none, and the code and the message of its
error. -/
theorem ofJson_toJson_conveys :
    (∀ m : Message, m.IsProper → ofJson m.toJson = .ok m) ∧
      (∀ (id : Json) (code : Int) (message : String), -0x8000000000000000 ≤ code → code ≤ 0x7FFFFFFFFFFFFFFF →
        (replyError id code message).IsProper) ∧
      ∀ (frame : Json) (m : Message), ofJson frame = .ok m →
        m.IsProper ∧ ofJson m.toJson = .ok m ∧ Conveys frame m ∧ Conveys m.toJson m := by
  refine ⟨fun _ => ofJson_toJson, ?_, ?_⟩
  · intro id code message hl hu
    exact ⟨hl, hu, by simp⟩
  · intro frame m h
    have hproper := isProper_of_ofJson h
    exact ⟨hproper, ofJson_toJson hproper, conveys_of_ofJson h, conveys_toJson hproper⟩

/-- Parameters that are null are kept; the data of an error that is null is dropped, and its list becomes an object. -/
theorem ofJson_toJson_conveys_null :
    ofJson (request .null "m" (some .null)).toJson = .ok (request .null "m" (some .null)) ∧
      ofJson (.obj [("error", .arr [.int (-32601), .str "no", .null]), ("id", .str "r"), ("result", .int 5)]) =
        .ok (response (.str "r") (.error ⟨-32601, "no", none⟩)) ∧
      ofJson (response (.str "r") (.error ⟨-32601, "no", none⟩)).toJson =
        .ok (response (.str "r") (.error ⟨-32601, "no", none⟩)) := by
  obtain ⟨hwritten, -, hread⟩ := ofJson_toJson_conveys
  have h : ofJson (.obj [("error", .arr [.int (-32601), .str "no", .null]), ("id", .str "r"), ("result", .int 5)]) =
      .ok (response (.str "r") (.error ⟨-32601, "no", none⟩)) := rfl
  exact ⟨hwritten _ trivial, h, (hread _ _ h).2.1⟩

end Message

end Liaison
