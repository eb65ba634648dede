import Liaison.Process.Launch
import Liaison.Rehearsal.Schedule
import Liaison.Rehearsal.Shell.Run

/-!
# Roles

What a program does as a server once it is started.
-/

namespace Liaison

structure Role where
  part : Part
  greeting : Bytes

abbrev Cast := ServerConfig → FileTree → Role

namespace Role

def ofCommand? (command : String) : Option Cast :=
  (Shell.programPath? command).map fun path c files =>
    let place := (c.workingDir.or c.workspaceRoot).map files.place
    let working : List Bytes :=
      match place with
      | some (.ok names) => names
      | _ => files.working
    ⟨.program (Shell.program path c.args c.env { files with working := working }) 0 0, []⟩

end Role

end Liaison
