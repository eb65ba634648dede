import Liaison.Session.Options

/-!
# Launching servers

The process of a server runs in the working directory of its configuration, or else in the root of
the workspace. It cannot be started without its program and its directory.
-/

namespace Liaison

structure Launch where
  server : ServerConfig
  options : ClientOptions

namespace Launch

def ofConfig (working : Path) (name : String) (c : ServerConfig) : Except CallError Launch := do
  let options ← ClientOptions.ofConfig working name c
  return ⟨{ c with workspaceRoot := some options.root }, options⟩

def notFound : String := "not found in PATH: cannot find binary path"

def endsEarly : String := "nul byte found in provided data"

def hasEarlyEnd (c : ServerConfig) (directory : Option Path) : Bool :=
  (c.args ++ c.env.flatMap fun (name, v) => [name, v]).any (·.toList.contains (Char.ofNat 0)) ||
    directory.any (·.contains 0)

def directoryFault? (tree : FileTree) (directory : Path) : Option FileFault :=
  match tree.find directory with
  | .ok .directory => none
  | .ok (.file _) => some .notDirectory
  | .error fault => some fault

def fault? (isProgram : String → Bool) (tree : FileTree) (c : ServerConfig) : Option CallError :=
  let directory := c.workingDir.or c.workspaceRoot
  if !isProgram c.command then some (.spawn c.command notFound)
  else if hasEarlyEnd c directory then some (.spawn c.command endsEarly)
  else
    (directory.bind (directoryFault? tree)).map fun fault => .spawn c.command fault.message

end Launch

end Liaison
