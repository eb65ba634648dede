import Liaison.Frame

/-!
# Scripted servers

A scripted server answers every message by the next of the replies that are laid down for its method,
and in a plain way when none is left.
-/

namespace Liaison

/-- One reply of a scripted server. Its parts are sent in this order. -/
structure ScriptedReply where
  result : Option Json
  error : Option Json
  messages : List Json
  raw : Bytes
  hangsUp : Bool

abbrev Script := Table String (List ScriptedReply)

namespace ScriptedReply

def nothing : ScriptedReply :=
  ⟨none, none, [], [], false⟩

def ofResult (v : Json) : ScriptedReply :=
  { nothing with result := some v }

/-! ## Bytes -/

def idMark : String := "$ID"

mutual

def fill (id : Json) : Json → Json
  | .str s => if s = idMark then id else .str s
  | .arr items => .arr (fillItems id items)
  | .obj members => .obj (fillMembers id members)
  | v => v

def fillItems (id : Json) : List Json → List Json
  | [] => []
  | v :: rest => fill id v :: fillItems id rest

def fillMembers (id : Json) : List (String × Json) → List (String × Json)
  | [] => []
  | (name, v) :: rest => (name, fill id v) :: fillMembers id rest

end

def response (id : Json) (name : String) (v : Json) : Json :=
  Json.ofMembers [("jsonrpc", .str "2.0"), ("id", id), (name, v)]

def bytes (r : ScriptedReply) (id : Json) : Bytes :=
  let responses :=
    (r.result.map (response id "result")).toList ++ (r.error.map (response id "error")).toList
  (responses ++ r.messages.map (fill id)).flatMap Frame.write ++ r.raw

end ScriptedReply

namespace Script

def plainHandshake : Json :=
  Json.ofMembers
    [("capabilities", Json.ofMembers
      [("textDocumentSync", Json.ofMembers [("openClose", .bool true), ("change", .int 2)])])]

def plainReply (method : String) (id : Option Json) : ScriptedReply :=
  match id with
  | none => .nothing
  | some _ => .ofResult (if method = "initialize" then plainHandshake else .null)

def reply (s : Script) (method : String) (id : Option Json) : ScriptedReply × Script :=
  match s.get? method with
  | some (r :: rest) => (r, s.insert method rest)
  | _ => (plainReply method id, s)

/-- What the server sends in answer to a frame, and whether it hangs up then. A frame without a
method is no message that would be answered. -/
def answer (s : Script) (frame : Json) : Bytes × Bool × Script :=
  match frame.member? "method" with
  | some (.str method) =>
    let id := frame.member? "id"
    let (r, s) := s.reply method id
    (r.bytes (id.getD .null), r.hangsUp, s)
  | _ => ([], false, s)

end Script

end Liaison
