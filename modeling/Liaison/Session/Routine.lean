import Liaison.Answer.Hover
import Liaison.Answer.Location
import Liaison.Answer.Rename
import Liaison.Answer.Symbol
import Liaison.Session.Action

/-!
# Routines

A routine is the program of a task: a tree of actions that branches on their answers.
-/

namespace Liaison

inductive Routine (α : Type) where
  | done (a : α)
  | step (action : Action) (next : action.Answer → Routine α)

namespace Routine

def bind {α β : Type} : Routine α → (α → Routine β) → Routine β
  | done a, f => f a
  | step action next, f => step action fun answer => bind (next answer) f

instance : Monad Routine where
  pure := done
  bind := bind

theorem step_congr {α : Type} (action : Action) {f g : action.Answer → Routine α} (h : ∀ a, f a = g a) :
    step action f = step action g :=
  congrArg (step action) (funext h)

theorem bind_done {α : Type} (r : Routine α) : bind r done = r := by
  induction r with
  | done a => rfl
  | step action next ih => simp [bind, ih]

theorem bind_bind {α β γ : Type} (r : Routine α) (f : α → Routine β) (g : β → Routine γ) :
    bind (bind r f) g = bind r fun a => bind (f a) g := by
  induction r with
  | done a => rfl
  | step action next ih => simp [bind, ih]

instance : LawfulMonad Routine :=
  LawfulMonad.mk' Routine
    bind_done
    (fun _ _ => rfl)
    bind_bind

end Routine

def act (action : Action) : Routine action.Answer :=
  .step action .done

abbrev Attempt (α : Type) := ExceptT CallError Routine α

namespace Attempt

def outcome {α : Type} (r : Attempt α) : Attempt (Except CallError α) :=
  ExceptT.lift r.run

def ofExcept {α : Type} (result : Except CallError α) : Attempt α :=
  ExceptT.mk (pure result)

end Attempt

inductive Finding where
  | nothing
  | flag (b : Bool)
  | version (v : Option Nat)
  | uris (uris : List String)
  | locations (locations : List Location)
  | hover (hover : Option Hover)
  | edits (edits : RenameEdits)
  | symbols (symbols : List Symbol)
  | diagnostics (set : DiagnosticSet)
  | answer (v : Json)

namespace Finding

def toJson : Finding → Json
  | nothing => .null
  | flag b => .bool b
  | version v => .ofOption (v.map .ofNat)
  | uris us => .arr (us.map .str)
  | locations ls => .arr (ls.map Location.toJson)
  | hover h => .ofOption (h.map Hover.toJson)
  | edits e => e.toJson
  | symbols ss => .arr (ss.map Symbol.toJson)
  | diagnostics s => s.toJson
  | answer v => v

end Finding

abbrev Result := Except CallError Finding

inductive Next where
  | finish (result : Result)
  | resume (phase : Phase)

end Liaison
