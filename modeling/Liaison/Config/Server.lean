import Liaison.File.Tree
import Liaison.Json.Decode

/-!
# Server configurations

How a language server is started, which files it handles, and where the root of a workspace is found.
-/

namespace Liaison

structure ServerConfig where
  command : String
  args : List String
  workingDir : Option Path
  env : Table String String
  languageId : String
  fileExtensions : List String
  rootMarkers : List Path
  workspaceRoot : Option Path
  handshakeOptions : Option Json
  requestTimeoutSecs : Nat
  handshakeTimeoutSecs : Nat

/-! ## Decoding -/

namespace Decoder

def path : Decoder Path
  | .str s => .ok (Path.ofString s)
  | v => .error (.wrongType v "path string")

def isNumber (n : Int) : Bool :=
  -0x8000000000000000 ≤ n && n ≤ 0xFFFFFFFFFFFFFFFF

mutual

/-- The value as JSON knows it: what is no finite number becomes null, and an integer has to fit. -/
def plain : Json → Except DecodeError Json
  | .int n => if isNumber n then .ok (.int n) else .error (.outOfRange n "a JSON number")
  | .float x => .ok (if x.isFinite then .float x else .null)
  | .arr items => (plainItems items).map .arr
  | .obj members => (plainMembers members).map .obj
  | v => .ok v

def plainItems : List Json → Except DecodeError (List Json)
  | [] => .ok []
  | v :: rest => do return (← plain v) :: (← plainItems rest)

def plainMembers : List (String × Json) → Except DecodeError (List (String × Json))
  | [] => .ok []
  | (name, v) :: rest => do return (name, ← plain v) :: (← plainMembers rest)

end

end Decoder

namespace ServerConfig

/-- How long a request may take if nothing else is said, in seconds. -/
def defaultRequestTimeout : Nat := 30

/-- How long the handshake may take if nothing else is said, in seconds. -/
def defaultHandshakeTimeout : Nat := 60

def decode : Decoder ServerConfig :=
  Record.decode "ServerConfig" <|
    ServerConfig.mk <$>
      .field "command" .string <*>
      .fieldOr "args" (.list .string) [] <*>
      .fieldOpt "working_dir" .path <*>
      .fieldOr "env" (.map .string) [] <*>
      .field "language_id" .string <*>
      .fieldOr "file_extensions" (.list .string) [] <*>
      .fieldOr "root_markers" (.list (.as Path.ofString .string)) [] <*>
      .fieldOpt "workspace_root" .path <*>
      .fieldOpt "initialization_options" .plain <*>
      .fieldOr "request_timeout_secs" .u64 defaultRequestTimeout <*>
      .fieldOr "init_timeout_secs" .u64 defaultHandshakeTimeout

/-! ## Files -/

def handles (c : ServerConfig) (p : Path) : Bool :=
  match (Path.extension? p).bind Utf8.toString? with
  | some extension => c.fileExtensions.contains extension
  | none => false

/-! ## Roots -/

def isRoot (markers : List Path) (view : FileView) (directory : Path) : Bool :=
  markers.any fun marker => view.contains (Path.join directory marker)

def rootAbove? (markers : List Path) (view : FileView) (directory : Path) : Option Path :=
  if isRoot markers view directory then some directory
  else
    match _h : Path.parent? directory with
    | some above => rootAbove? markers view above
    | none => none
termination_by directory.length
decreasing_by exact Path.length_lt_of_parent? _h

def rootFrom? (markers : List Path) (view : FileView) (start : Path) : Option Path :=
  let first := if view.isDirectory start then some start else Path.parent? start
  first.bind (rootAbove? markers view)

def findRoot? (markers : List Path) (tree : FileTree) (start : Path) : Option Path :=
  rootFrom? markers tree.view start

end ServerConfig

end Liaison
