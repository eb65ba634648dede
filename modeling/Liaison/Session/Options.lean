import Liaison.CallError
import Liaison.Config.Server
import Liaison.Uri.File

/-!
# Options of a client

What a client needs to know about its server and its workspace. Times are in microseconds.
-/

namespace Liaison

structure ClientOptions where
  name : String
  languageId : String
  root : Path
  handshakeOptions : Option Json
  requestTimeout : Nat
  handshakeTimeout : Nat
  processId : Json := .null

namespace ClientOptions

def seconds (n : Nat) : Nat :=
  n * 1000000

/-- The options for a configured server. Without a root the working directory is taken. -/
def ofConfig (working : Path) (name : String) (c : ServerConfig) : Except CallError ClientOptions :=
  match c.workspaceRoot with
  | some [] => .error (.file .emptyPath)
  | root =>
    .ok
      { name := name
        languageId := c.languageId
        root := (root.map (Path.absolute working)).getD working
        handshakeOptions := c.handshakeOptions
        requestTimeout := seconds c.requestTimeoutSecs
        handshakeTimeout := seconds c.handshakeTimeoutSecs }

def restartError (o : ClientOptions) : CallError :=
  .spawn o.name "session was not started from a server command"

def resolve (o : ClientOptions) (p : Path) : Path :=
  Path.join o.root p

def uriFor (o : ClientOptions) (p : Path) : Except CallError String :=
  match fileUri? (o.resolve p) with
  | some uri => .ok uri
  | none => .error (.invalidPath (o.resolve p))

end ClientOptions

end Liaison
