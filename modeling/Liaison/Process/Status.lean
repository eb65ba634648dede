/-!
# Exit statuses

How a process ended. That its end cannot be learned is left out.
-/

namespace Liaison

/-- How a process ended: by itself with a code, or by a signal. -/
inductive ExitStatus where
  | code (n : Nat)
  | signal (n : Nat)
deriving DecidableEq, Inhabited

namespace ExitStatus

/-- The signals with names, by their numbers from one on. -/
def signalNames : List String :=
  ["SIGHUP", "SIGINT", "SIGQUIT", "SIGILL", "SIGTRAP", "SIGABRT", "SIGBUS", "SIGFPE", "SIGKILL",
    "SIGUSR1", "SIGSEGV", "SIGUSR2", "SIGPIPE", "SIGALRM", "SIGTERM", "SIGSTKFLT", "SIGCHLD",
    "SIGCONT", "SIGSTOP", "SIGTSTP", "SIGTTIN", "SIGTTOU", "SIGURG", "SIGXCPU", "SIGXFSZ",
    "SIGVTALRM", "SIGPROF", "SIGWINCH", "SIGIO", "SIGPWR", "SIGSYS"]

def kill : ExitStatus :=
  signal 9

def message : ExitStatus → String
  | code n => s!"exit status: {n}"
  | signal 0 => "signal: 0"
  | signal (n + 1) =>
    match signalNames[n]? with
    | some name => s!"signal: {n + 1} ({name})"
    | none => s!"signal: {n + 1}"

end ExitStatus

end Liaison
