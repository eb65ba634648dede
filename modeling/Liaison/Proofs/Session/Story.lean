import Liaison.Proofs.Session.Knowledge
import Liaison.Proofs.Session.Mail
import Mathlib.Data.List.Perm.Subperm

/-!
# Stories

Anything that can happen to a session with a writer and a reader, in any order: calls and whatever else is
asked of it, steps of its tasks, bytes from the server, the end of either stream, and the passing of time.
-/

namespace Liaison

inductive Happening where
  | call (order : Order)
  | notify (method : String) (params : Option Json)
  | cancel (id : Nat) (reason : String)
  | closeStream
  | close (reason : String)
  | step (task : TaskId)
  | receive (bytes : Bytes)
  | hangUp
  /-- From now on there is only so much room for what is written. -/
  | limitOutput (room : Nat) (fault : String)
  | elapseTo (moment : Nat)

/-- A session, the calls that were made with the tasks that make them, and what was done. -/
structure Story where
  machine : Machine
  calls : List (TaskId × Order)
  history : History

namespace Story

def start (o : ClientOptions) (files : FileTree) (state : SessionState) : Story :=
  ⟨.attached o files state, [], []⟩

def withMachine (x : Story) (m : Machine) : Story :=
  { x with machine := m }

def happen (x : Story) : Happening → Story
  | .call order =>
    { x with
      machine := (x.machine.start (.call order.method order.params order.timeout)).2
      calls := x.calls ++ [(x.machine.nextTask, order)] }
  | .notify method params => x.withMachine (x.machine.start (.notify method params)).2
  | .cancel id reason => x.withMachine (x.machine.start (.cancel id reason)).2
  | .closeStream => x.withMachine (x.machine.start .closeStream).2
  | .close reason => x.withMachine (x.machine.addTask do endSession reason; return .over)
  | .step task =>
    { x with
      machine := (x.machine.advance task).getD x.machine
      history := x.history ++ (x.machine.deed? task).toList }
  | .receive bytes => x.withMachine (x.machine.receive bytes)
  | .hangUp => x.withMachine x.machine.hangUp
  | .limitOutput room fault => x.withMachine (x.machine.limitOutput room fault)
  | .elapseTo moment => x.withMachine (x.machine.elapseTo moment)

def run (x : Story) (happenings : List Happening) : Story :=
  happenings.foldl happen x

end Story

/-! ## Numbers -/

structure Numbered (h : History) (nextId : Nat) (calls : List (TaskId × Order)) : Prop where
  next : nextId = (numbers h).length + 1
  lt : ∀ p ∈ numbers h, p.2 < nextId
  takers : ((numbers h).map Prod.fst).Nodup
  ids : ((numbers h).map Prod.snd).Nodup
  called : ∀ p ∈ numbers h, p.1 ∈ calls.map Prod.fst
  fresh : ∀ id, (∀ t, (t, id) ∉ numbers h) → Unasked id h ∧ fate id h = .dropped

namespace Numbered

variable {h : History} {n : Nat} {calls calls' : List (TaskId × Order)} {d : Deed} {t t' : TaskId} {id : Nat}

theorem task_eq (hn : Numbered h n calls) (hp : (t, id) ∈ numbers h) (hq : (t', id) ∈ numbers h) : t = t' :=
  congrArg Prod.fst (List.inj_on_of_nodup_map hn.ids hp hq rfl)

theorem le_length (hn : Numbered h n calls) (hp : (t, id) ∈ numbers h) : id ≤ calls.length := by
  have hlength : (numbers h).length ≤ calls.length := by
    have hsub : (numbers h).map Prod.fst ⊆ calls.map Prod.fst := by
      intro u hu
      obtain ⟨p, hp, rfl⟩ := List.mem_map.mp hu
      exact hn.called p hp
    have hle := (List.subperm_of_subset hn.takers hsub).length_le
    rwa [List.length_map, List.length_map] at hle
  have hlt := hn.lt _ hp
  have hnext := hn.next
  omega

theorem fresh_next (hn : Numbered h n calls) : Unasked n h ∧ fate n h = .dropped := by
  refine hn.fresh n ?_
  intro t hp
  exact Nat.lt_irrefl _ (hn.lt _ hp)

theorem mono (hn : Numbered h n calls) (hc : ∀ t ∈ calls.map Prod.fst, t ∈ calls'.map Prod.fst) :
    Numbered h n calls' :=
  ⟨hn.next, hn.lt, hn.takers, hn.ids, fun p hp => hc _ (hn.called p hp), hn.fresh⟩

theorem keep (hn : Numbered h n calls) (hd : d.number? = none)
    (hu : ∀ id, (∀ t, (t, id) ∉ numbers h) → d.action ≠ .register id ∧ ∀ result, d.write? ≠ some (id, result)) :
    Numbered (h ++ [d]) n calls := by
  have hsame : numbers (h ++ [d]) = numbers h := by
    rw [numbers_concat, hd]
    exact List.append_nil _
  refine ⟨?_, ?_, ?_, ?_, ?_, ?_⟩
  · rw [hsame]
    exact hn.next
  · rw [hsame]
    exact hn.lt
  · rw [hsame]
    exact hn.takers
  · rw [hsame]
    exact hn.ids
  · rw [hsame]
    exact hn.called
  · intro id hid
    rw [hsame] at hid
    obtain ⟨hask, hf⟩ := hn.fresh id hid
    obtain ⟨ha, hw⟩ := hu id hid
    exact ⟨hask.concat ha, (fate_concat hw).trans hf⟩

theorem take (hn : Numbered h n calls) (hd : d = ⟨t, .nextId, n⟩) (ht : t ∉ (numbers h).map Prod.fst)
    (hc : t ∈ calls.map Prod.fst) : Numbered (h ++ [d]) (n + 1) calls := by
  subst hd
  have hnew : numbers (h ++ [⟨t, .nextId, n⟩]) = numbers h ++ [(t, n)] := numbers_concat h _
  have hcases : ∀ p ∈ numbers h ++ [(t, n)], p ∈ numbers h ∨ p = (t, n) := by
    intro p hp
    rcases List.mem_append.mp hp with hp | hp
    · exact .inl hp
    · exact .inr (List.mem_singleton.mp hp)
  refine ⟨?_, ?_, ?_, ?_, ?_, ?_⟩
  · rw [hnew, List.length_append, hn.next]
    rfl
  · intro p hp
    rw [hnew] at hp
    rcases hcases p hp with hp | rfl
    · exact Nat.lt_succ_of_lt (hn.lt p hp)
    · exact Nat.lt_succ_self n
  · rw [hnew, List.map_append]
    refine List.nodup_append.mpr ⟨hn.takers, List.pairwise_singleton _ _, ?_⟩
    intro u hu v hv e
    obtain rfl : v = t := List.mem_singleton.mp hv
    exact ht (e ▸ hu)
  · rw [hnew, List.map_append]
    refine List.nodup_append.mpr ⟨hn.ids, List.pairwise_singleton _ _, ?_⟩
    intro i hi j hj e
    obtain ⟨p, hp, rfl⟩ := List.mem_map.mp hi
    rw [List.mem_singleton.mp hj] at e
    exact Nat.ne_of_lt (hn.lt p hp) e
  · intro p hp
    rw [hnew] at hp
    rcases hcases p hp with hp | rfl
    · exact hn.called p hp
    · exact hc
  · intro id hid
    rw [hnew] at hid
    obtain ⟨hask, hf⟩ := hn.fresh id fun u hu => hid u (List.mem_append_left _ hu)
    refine ⟨hask.concat ?_, (fate_concat ?_).trans hf⟩
    · intro he
      cases he
    · intro result hr
      cases hr

end Numbered

end Liaison
