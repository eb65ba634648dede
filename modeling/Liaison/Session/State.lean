/-!
# The life of a session

A session is started, becomes ready, is shut down and ends. It may end at any time, and once it has
ended it stays so.
-/

namespace Liaison

inductive SessionState where
  | notStarted
  | starting
  | ready
  | shuttingDown
  | terminated
deriving DecidableEq

namespace SessionState

def table : List (SessionState × String) :=
  [(notStarted, "not started"), (starting, "starting"), (ready, "initialized"),
    (shuttingDown, "shutting down"), (terminated, "terminated")]

def name (s : SessionState) : String :=
  (table.lookup s).getD ""

def ofName? (name : String) : Option SessionState :=
  (table.find? (·.2 = name)).map (·.1)

/-- Goes from one state to another, if the session is in the first and has not ended. -/
def transition (s before after : SessionState) : SessionState × Bool :=
  if s = before ∧ s ≠ terminated then (after, true) else (s, false)

def terminate (s : SessionState) : SessionState × Bool :=
  (terminated, s ≠ terminated)

end SessionState

end Liaison
