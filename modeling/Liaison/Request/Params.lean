import Liaison.Position

/-!
# Parameters of requests

The JSON objects that requests and notifications to the server carry.
-/

namespace Liaison

inductive SyncMode where
  | full
  | incremental
deriving DecidableEq

def SyncMode.name : SyncMode → String
  | full => "Full"
  | incremental => "Incremental"

/-- Reads the mode from a server's answer to the handshake: a number, or an object that has it as
`change`. Whatever is not incremental is full. -/
def SyncMode.ofHandshake (result : Json) : SyncMode :=
  let announced := (result.member? "capabilities").bind (·.member? "textDocumentSync")
  let change := announced.bind (·.member? "change")
  match announced, change with
  | some (.int n), _ => if n = 2 then incremental else full
  | _, some (.int n) => if n = 2 then incremental else full
  | _, _ => full

namespace Params

def single (name : String) (v : Json) : Json :=
  .obj [(name, v)]

def switches (members : List (String × Bool)) : Json :=
  Json.ofMembers (members.map fun m => (m.1, .bool m.2))

/-! ## Handshake -/

def documentCapabilities : Json :=
  let linked := switches [("dynamicRegistration", false), ("linkSupport", true)]
  Json.ofMembers
    [("synchronization", switches
        [("dynamicRegistration", false), ("willSave", false), ("willSaveWaitUntil", false),
          ("didSave", false)]),
      ("definition", linked),
      ("typeDefinition", linked),
      ("implementation", linked),
      ("references", switches [("dynamicRegistration", false)]),
      ("hover", Json.ofMembers
        [("dynamicRegistration", .bool false),
          ("contentFormat", .arr [.str "markdown", .str "plaintext"])]),
      ("rename", switches [("dynamicRegistration", false), ("prepareSupport", false)]),
      ("documentSymbol", switches
        [("dynamicRegistration", false), ("hierarchicalDocumentSymbolSupport", true)]),
      ("diagnostic", switches
        [("dynamicRegistration", false), ("relatedDocumentSupport", false)]),
      ("publishDiagnostics", switches
        [("relatedInformation", false), ("versionSupport", true)])]

def capabilities : Json :=
  Json.ofMembers
    [("general", single "positionEncodings" (.arr [.str "utf-16"])),
      ("workspace", Json.ofMembers
        [("configuration", .bool true), ("workspaceFolders", .bool true),
          ("applyEdit", .bool false), ("symbol", switches [("dynamicRegistration", false)])]),
      ("window", Json.ofMembers [("workDoneProgress", .bool true), ("showMessage", .obj [])]),
      ("textDocument", documentCapabilities)]

def clientVersion : String := "0.0.0"

def handshake (processId : Json) (rootUri : String) (options : Option Json) : Json :=
  let members : List (String × Json) :=
    [("processId", processId),
      ("clientInfo", Json.ofMembers [("name", .str "tether"), ("version", .str clientVersion)]),
      ("rootUri", .str rootUri),
      ("capabilities", capabilities),
      ("workspaceFolders",
        .arr [Json.ofMembers [("uri", .str rootUri), ("name", .str "workspace")]])]
  Json.ofMembers <|
    match options with
    | some options => members ++ [("initializationOptions", options)]
    | none => members

/-! ## Documents -/

def documentMember (uri : String) : String × Json :=
  ("textDocument", single "uri" (.str uri))

def document (uri : String) : Json :=
  .obj [documentMember uri]

def opened (uri languageId : String) (version : Int) (text : String) : Json :=
  single "textDocument" <| Json.ofMembers
    [("uri", .str uri), ("languageId", .str languageId), ("version", .int version),
      ("text", .str text)]

def changed (uri : String) (version : Int) (change : Json) : Json :=
  Json.ofMembers
    [("textDocument", Json.ofMembers [("uri", .str uri), ("version", .int version)]),
      ("contentChanges", .arr [change])]

def changedText (uri : String) (version : Int) (text : String) : Json :=
  changed uri version (single "text" (.str text))

def changedRange (uri : String) (version : Int) (range : Wire.Range) (text : String) : Json :=
  changed uri version (Json.ofMembers [("range", range.toJson), ("text", .str text)])

/-! ## Positions -/

def position (uri : String) (p : Wire.Position) : Json :=
  Json.ofMembers [documentMember uri, ("position", p.toJson)]

def references (uri : String) (p : Wire.Position) (includeDeclaration : Bool) : Json :=
  (position uri p).set "context" (switches [("includeDeclaration", includeDeclaration)])

def rename (uri : String) (p : Wire.Position) (newName : String) : Json :=
  (position uri p).set "newName" (.str newName)

def query (text : String) : Json :=
  single "query" (.str text)

end Params

end Liaison
