import Liaison.Diagnostic.Basic

/-!
# The cache of diagnostics

The latest set of each document. A set that is older than the one it would replace is discarded.
Every set that is taken in is followed by a notice, which wakes those who wait for one.
-/

namespace Liaison

structure DiagnosticCache where
  sets : Table String DiagnosticSet
  notices : Nat

namespace DiagnosticCache

def empty : DiagnosticCache :=
  ⟨[], 0⟩

def isStale (c : DiagnosticCache) (uri : String) (stamp : Stamp) : Bool :=
  match c.sets.get? uri with
  | some set => stamp.isOlder set.stamp
  | none => false

/-- Takes in a set, unless it is stale. The notice is to follow. -/
def publish? (c : DiagnosticCache) (set : DiagnosticSet) : Option DiagnosticCache :=
  if c.isStale set.uri set.stamp then none
  else some { c with sets := c.sets.insert set.uri set }

def notify (c : DiagnosticCache) : DiagnosticCache :=
  { c with notices := c.notices + 1 }

/-- Takes in a set and gives the notice, unless it is stale. Says whether it was taken in. -/
def update (c : DiagnosticCache) (set : DiagnosticSet) : DiagnosticCache × Bool :=
  match c.publish? set with
  | some c => (c.notify, true)
  | none => (c, false)

/-- Drops the version from the stamp of a document's set, so that later sets are compared with it by
their arrival alone. -/
def forgetVersion (c : DiagnosticCache) (uri : String) : DiagnosticCache :=
  match c.sets.get? uri with
  | some set =>
    { c with sets := c.sets.insert uri { set with stamp := { set.stamp with version := none } } }
  | none => c

def snapshot (c : DiagnosticCache) (uri : String) : DiagnosticSet :=
  (c.sets.get? uri).getD (.empty uri)

def sequenceFor (c : DiagnosticCache) (uri : String) : Nat :=
  (c.snapshot uri).stamp.sequence

/-- Documents with errors come first, and then the order of the URIs decides. -/
def listedBefore (a b : DiagnosticSet) : Bool :=
  match a.errors.isEmpty, b.errors.isEmpty with
  | false, true => true
  | true, false => false
  | _, _ => a.uri ≤ b.uri

def all (c : DiagnosticCache) : List DiagnosticSet :=
  ((c.sets.map (·.2)).filter (!·.isEmpty)).mergeSort listedBefore

/-- The errors of the given documents; those without errors are left out. -/
def errorsFor (c : DiagnosticCache) (uris : List String) : List (String × List Diagnostic) :=
  (uris.map fun uri => (uri, (c.snapshot uri).errors)).filter (!·.2.isEmpty)

end DiagnosticCache

end Liaison
