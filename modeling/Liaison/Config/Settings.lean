import Liaison.Config.Expand
import Liaison.Config.Server
import Liaison.Toml.Reader

/-!
# Settings

The configured servers by name, as they are read from a settings file, and the choice of a server for
a file.
-/

namespace Liaison

structure Settings where
  servers : List (String × ServerConfig)
  nodup : (servers.map (·.1)).Nodup

namespace Settings

def empty : Settings :=
  ⟨[], .nil⟩

theorem nodup_replace {servers : List (String × ServerConfig)} (h : (servers.map (·.1)).Nodup)
    (found : String × ServerConfig) : ((servers.filter (·.1 ≠ found.1) ++ [found]).map (·.1)).Nodup := by
  rw [List.map_append, List.nodup_append]
  refine ⟨h.sublist (List.filter_sublist.map _), List.pairwise_singleton .., fun name hname other hother => ?_⟩
  obtain ⟨kept, hkept, rfl⟩ := List.mem_map.mp hname
  obtain rfl := List.mem_singleton.mp hother
  simpa using (List.mem_filter.mp hkept).2

def add (s : Settings) (found : String × ServerConfig) : Settings :=
  ⟨s.servers.filter (·.1 ≠ found.1) ++ [found], nodup_replace s.nodup found⟩

/-- The settings of some servers. The last of two servers of one name wins. -/
def ofServers (servers : List (String × ServerConfig)) : Settings :=
  servers.foldl add empty

def map (f : ServerConfig → ServerConfig) (s : Settings) : Settings :=
  ⟨s.servers.map fun (name, c) => (name, f c), by simpa [Function.comp_def] using s.nodup⟩

def decode : Decoder Settings :=
  Record.decode "LspConfig" <|
    ofServers <$> Record.fieldOr "servers" (Decoder.map ServerConfig.decode) []

def decodeFile : Decoder Settings :=
  Record.decode "Settings" <| Record.fieldOr "lsp" decode empty

/-! ## Choice -/

def inOrder (s : Settings) : List (String × ServerConfig) :=
  s.servers.mergeSort fun a b => decide (a.1 ≤ b.1)

def claimedExtensions (s : Settings) : List (String × String) :=
  s.inOrder.flatMap fun (name, c) => c.fileExtensions.map (·, name)

/-- The server of each extension: the first by name of those that handle it. -/
def extensions (s : Settings) : Table String String :=
  s.claimedExtensions.foldl
    (fun t (extension, name) =>
      if (t.get? extension).isSome then t else t.insert extension name)
    []

def serverFor? (s : Settings) (p : Path) : Option (String × ServerConfig) := do
  let extension ← (Path.extension? p).bind Utf8.toString?
  let name ← s.extensions.get? extension
  let c ← Table.get? name s.servers
  return (name, c)

/-! ## Files -/

def expandServer (env : Environment) (c : ServerConfig) : ServerConfig :=
  { c with
    command := expandText env c.command
    args := c.args.map (expandText env)
    env := c.env.map fun (name, v) => (name, expandText env v) }

def parse? (env : Environment) (text : String) : Option Settings :=
  match Toml.parse? text with
  | none => none
  | some v =>
    match decodeFile v with
    | .ok s => some (s.map (expandServer env))
    | .error _ => none

inductive LoadError where
  | unreadable (path : Path) (fault : FileFault)
  | invalid (path : Path)
deriving DecidableEq

def LoadError.message : LoadError → String
  | unreadable path fault =>
    "failed to read config at " ++ Path.display path ++ ": " ++ fault.message
  | invalid path => "failed to parse config at " ++ Path.display path

def LoadError.path : LoadError → Path
  | unreadable path _ | invalid path => path

def loadFrom (env : Environment) (tree : FileTree) (path : Path) : Except LoadError Settings :=
  match tree.readText path with
  | .error fault => .error (.unreadable path fault)
  | .ok text =>
    match parse? env text with
    | some s => .ok s
    | none => .error (.invalid path)

def defaultPath (home : Path) : Path :=
  Path.join (Path.join home (Path.ofString ".tether")) (Path.ofString "config.toml")

/-- Loads the settings of a user. There are none without a file. -/
def load (env : Environment) (tree : FileTree) (home : Path) : Except LoadError Settings :=
  if tree.contains (defaultPath home) then loadFrom env tree (defaultPath home) else .ok empty

end Settings

end Liaison
