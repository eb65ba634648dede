import Liaison.Proofs.Session.Steps

/-!
# The course of a session

Anything can be asked of a session, at any time and by anybody: its tasks take their steps in any order, some
of them are dropped, and the world acts on it in between. All that the tasks did is written down.
-/

namespace Liaison

/-- Once something was done that has the first property, and all that was done after it has the second one. -/
def Since (began : History → Deed → Prop) (lasts : Deed → Prop) (h : History) : Prop :=
  ∃ before d after, h = before ++ d :: after ∧ began before d ∧ ∀ e ∈ after, lasts e

theorem not_since_nil {began : History → Deed → Prop} {lasts : Deed → Prop} : ¬ Since began lasts [] := by
  rintro ⟨before, d, after, he, -⟩
  simp at he

theorem since_concat {began : History → Deed → Prop} {lasts : Deed → Prop} {h : History} {d : Deed} :
    Since began lasts (h ++ [d]) ↔ began h d ∨ (Since began lasts h ∧ lasts d) := by
  constructor
  · rintro ⟨before, e, after, he, hb, hl⟩
    induction after using List.reverseRecOn with
    | nil =>
      obtain ⟨rfl, hde⟩ := List.append_inj' he rfl
      cases hde
      exact .inl hb
    | append_singleton after f _ =>
      rw [← List.cons_append, ← List.append_assoc] at he
      obtain ⟨rfl, hdf⟩ := List.append_inj' he rfl
      cases hdf
      refine .inr ⟨⟨before, e, after, rfl, hb, ?_⟩, hl d (by simp)⟩
      intro g hg
      exact hl g (List.mem_append_left _ hg)
  · rintro (hb | ⟨⟨before, e, after, rfl, hb, hl⟩, hd⟩)
    · exact ⟨h, d, [], rfl, hb, by simp⟩
    · refine ⟨before, e, after ++ [d], by simp, hb, ?_⟩
      intro g hg
      rcases List.mem_append.mp hg with hg | hg
      · exact hl g hg
      · rw [List.mem_singleton.mp hg]
        exact hd

structure Course where
  machine : Machine
  history : History

inductive Occurrence where
  | start (op : Operation)
  | step (task : TaskId)
  | drop (task : TaskId)
  | receive (bytes : Bytes)
  | hangUp
  | limitOutput (room : Nat) (fault : String)
  | elapseTo (moment : Nat)
  | endChild (status : ExitStatus)
  | hear (bytes : Bytes)
  /-- Nothing more comes of what the server says on its error stream. -/
  | endErrors (e : StreamEnd)
  | setFiles (files : FileTree)
  | addHandler (method name : String)

namespace Course

/-- The session of a client, with or without a process of its own, before anything has happened. -/
def begin (o : ClientOptions) (files : FileTree) (hasProcess : Bool) : Course :=
  ⟨if hasProcess then .launched o files else .connected o files, []⟩

/-- A task carries out an action, unless it would have to wait. -/
def act (x : Course) (t : TaskId) (a : Action) : Course :=
  match x.machine.perform t a with
  | some (answer, m) => ⟨m, x.history ++ [⟨t, a, answer⟩]⟩
  | none => x

def happen (x : Course) : Occurrence → Course
  | .start op => { x with machine := (x.machine.start op).2 }
  | .step t =>
    ⟨(x.machine.advance t).getD x.machine, x.history ++ (x.machine.deed? t).toList⟩
  | .drop t => { x with machine := x.machine.drop t }
  | .receive bytes => { x with machine := x.machine.receive bytes }
  | .hangUp => { x with machine := x.machine.hangUp }
  | .limitOutput room fault => { x with machine := x.machine.limitOutput room fault }
  | .elapseTo moment => { x with machine := x.machine.elapseTo moment }
  | .endChild status => { x with machine := x.machine.endChild status }
  | .hear bytes => { x with machine := x.machine.hear bytes }
  | .endErrors e => { x with machine := x.machine.endErrors e }
  | .setFiles files => { x with machine := x.machine.setFiles files }
  | .addHandler method name => { x with machine := x.machine.addHandler method name }

def run (x : Course) (occurrences : List Occurrence) : Course :=
  occurrences.foldl happen x

theorem run_append (x : Course) (first later : List Occurrence) : x.run (first ++ later) = (x.run first).run later :=
  List.foldl_append

theorem run_concat (x : Course) (occurrences : List Occurrence) (e : Occurrence) :
    x.run (occurrences ++ [e]) = (x.run occurrences).happen e := by
  rw [run_append]
  rfl

end Course

end Liaison
