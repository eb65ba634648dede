import Liaison.Json.Decode

/-!
# Messages

The JSON-RPC messages: requests, notifications and responses. Ids are any JSON value, so that a
request of the other side is answered under exactly the id it came with.
-/

namespace Liaison

structure ResponseError where
  code : Int
  message : String
  data : Option Json
deriving DecidableEq

namespace ResponseError

def decode : Decoder ResponseError :=
  Record.decode "ResponseError" <|
    ResponseError.mk <$> .field "code" .i64 <*> .field "message" .string <*> .fieldOpt "data" .ok

def toJson (e : ResponseError) : Json :=
  let members := [("code", .int e.code), ("message", .str e.message)]
  Json.ofMembers <|
    match e.data with
    | some data => members ++ [("data", data)]
    | none => members

end ResponseError

inductive Outcome where
  | result (v : Json)
  | error (e : ResponseError)
deriving DecidableEq

inductive Message where
  | request (id : Json) (method : String) (params : Option Json)
  | notification (method : String) (params : Option Json)
  | response (id : Json) (outcome : Outcome)
deriving DecidableEq

inductive MessageError where
  | notObject
  | methodNotString (method : Json)
  | invalidError (e : DecodeError)
  | noOutcome
  | noIdOrMethod
deriving DecidableEq

def MessageError.message : MessageError → String
  | notObject => "frame is not a JSON object"
  | methodNotString method => "method is not a string: " ++ method.compact
  | invalidError e => "invalid error object: " ++ e.message
  | noOutcome => "response without result or error"
  | noIdOrMethod => "frame has neither id nor method"

namespace Message

def methodNotFound : Int := -32601

def reply (id result : Json) : Message :=
  response id (.result result)

def replyError (id : Json) (code : Int) (message : String) : Message :=
  response id (.error ⟨code, message, none⟩)

def paramsMember : Option Json → List (String × Json)
  | some params => [("params", params)]
  | none => []

def members : Message → List (String × Json)
  | request id method params => ("id", id) :: ("method", .str method) :: paramsMember params
  | notification method params => ("method", .str method) :: paramsMember params
  | response id (.result v) => [("id", id), ("result", v)]
  | response id (.error e) => [("id", id), ("error", e.toJson)]

def toJson (m : Message) : Json :=
  Json.ofMembers (("jsonrpc", .str "2.0") :: m.members)

/-- Reads the outcome of a response. An error goes before a result. -/
def outcome? (frame : Json) : Except MessageError Outcome :=
  match frame.member? "error", frame.member? "result" with
  | some error, _ =>
    match ResponseError.decode error with
    | .ok e => .ok (.error e)
    | .error e => .error (.invalidError e)
  | none, some v => .ok (.result v)
  | none, none => .error .noOutcome

/-- Tells which message a frame is. What has a method is a request if it has an id and else a
notification; what has only an id is a response. -/
def ofJson (frame : Json) : Except MessageError Message :=
  match frame with
  | .obj _ =>
    match frame.member? "id", frame.member? "method" with
    | some id, some (.str method) => .ok (.request id method (frame.member? "params"))
    | none, some (.str method) => .ok (.notification method (frame.member? "params"))
    | _, some method => .error (.methodNotString method)
    | some id, none => (outcome? frame).map (.response id)
    | none, none => .error .noIdOrMethod
  | _ => .error .notObject

end Message

end Liaison
