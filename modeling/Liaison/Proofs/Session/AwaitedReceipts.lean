import Liaison.Proofs.Session.Accounts
import Liaison.Proofs.Session.Invariance

/-!
# Receipts that are awaited

Whoever hands in a frame waits for the receipt of its ticket, and nobody else does. So as long as somebody waits for a
receipt, nobody was given it.
-/

namespace Liaison

theorem mem_ticketsOf_entrusted {h : History} {t : TaskId} {frame : Json} {n : Nat}
    (hm : ⟨t, .enqueue frame, some n⟩ ∈ h) : n ∈ ticketsOf (entrusted h) :=
  List.mem_filterMap.mpr ⟨.send frame n, List.mem_filterMap.mpr ⟨_, hm, rfl⟩, rfl⟩

structure AwaitsReceipts (h : History) (k : Conducts) : Prop where
  held : ∀ t n, (k t).ticket = some n →
    Since (fun _ d => ∃ frame, d = ⟨t, .enqueue frame, some n⟩) (fun d => ∀ r, d ≠ ⟨t, .awaitReceipt n, r⟩) h
  received : ∀ before t n r, before ++ [⟨t, .awaitReceipt n, r⟩] <+: h →
    ∃ frame, ⟨t, .enqueue frame, some n⟩ ∈ before

namespace AwaitsReceipts

variable {h : History} {k : Conducts} {t : TaskId} {a : Action} {answer : a.Answer} {n : Nat}

theorem after (hr : AwaitsReceipts h k) (ha : (k t).Allows a) :
    AwaitsReceipts (h ++ [⟨t, a, answer⟩]) (Function.update k t ((k t).after a answer)) := by
  constructor
  case held =>
    intro u n hu
    rw [since_concat]
    by_cases e : u = t
    · subst e
      rw [Function.update_self] at hu
      cases a with
      | enqueue frame =>
        cases answer with
        | none =>
          have hnone : (k u).ticket = none := ha
          have he : none = some n := hnone.symm.trans hu
          cases he
        | some ticket =>
          cases hu
          exact .inl ⟨frame, rfl⟩
      | awaitReceipt ticket => cases hu
      | _ => exact .inr ⟨hr.held u n hu, by simp⟩
    · rw [Function.update_of_ne e] at hu
      refine .inr ⟨hr.held u n hu, ?_⟩
      intro r he
      cases he
      exact e rfl
  case received =>
    intro before u n r hb
    rcases List.prefix_concat_iff.mp hb with he | hb
    · obtain ⟨rfl, hd⟩ := List.append_inj' he rfl
      cases hd
      obtain ⟨first, d, after, rfl, ⟨frame, rfl⟩, -⟩ := hr.held _ _ ha
      exact ⟨frame, by simp⟩
    · exact hr.received before u n r hb

theorem release (hr : AwaitsReceipts h k) (t : TaskId) (post : Option Nat) :
    AwaitsReceipts h (Function.update k t (.free post)) := by
  refine ⟨?_, hr.received⟩
  intro u n hu
  by_cases e : u = t
  · rw [e, Function.update_self] at hu
    cases hu
  · rw [Function.update_of_ne e] at hu
    exact hr.held u n hu

/-- Nobody was given the receipt of a ticket that somebody holds, provided that every ticket is given once. -/
theorem unreceived (hr : AwaitsReceipts h k) (hn : (ticketsOf (entrusted h)).Nodup) (ht : (k t).ticket = some n)
    (u : TaskId) (r : Receipt) : ⟨u, .awaitReceipt n, r⟩ ∉ h := by
  obtain ⟨before, d, after, rfl, ⟨frame, rfl⟩, hlast⟩ := hr.held t n ht
  have htickets : ticketsOf (entrusted (before ++ ⟨t, .enqueue frame, some n⟩ :: after)) =
      ticketsOf (entrusted before) ++ n :: ticketsOf (entrusted after) := by
    rw [entrusted_append, ticketsOf_append]
    rfl
  rw [htickets] at hn
  obtain ⟨-, hlater, hdisjoint⟩ := List.nodup_append.mp hn
  have hbefore : n ∉ ticketsOf (entrusted before) := fun hm => hdisjoint n hm n List.mem_cons_self rfl
  have hafter : n ∉ ticketsOf (entrusted after) := (List.nodup_cons.mp hlater).1
  intro hm
  -- The wait for the ticket comes after a deed that hands in its frame, and there is only one.
  obtain ⟨first, hfirst⟩ := exists_isPrefix hm
  obtain ⟨frame', hmem⟩ := hr.received first u n r hfirst
  rcases List.mem_append.mp hm with hm | hm
  · obtain ⟨first', hfirst'⟩ := exists_isPrefix hm
    obtain ⟨frame'', hmem'⟩ := hr.received first' u n r (hfirst'.trans (List.prefix_append _ _))
    exact hbefore (mem_ticketsOf_entrusted (hfirst'.subset (List.mem_append_left _ hmem')))
  · have hown : u = t := by
      rcases List.mem_append.mp (hfirst.subset (List.mem_append_left _ hmem)) with hmem | hmem
      · exact absurd (mem_ticketsOf_entrusted hmem) hbefore
      · rcases List.mem_cons.mp hmem with he | hmem
        · cases he
          rfl
        · exact absurd (mem_ticketsOf_entrusted hmem) hafter
    subst hown
    rcases List.mem_cons.mp hm with he | hm
    · cases he
    · exact hlast _ hm r rfl

end AwaitsReceipts

theorem invariant_awaitsReceipts : Course.Invariant fun x k => AwaitsReceipts x.history k where
  alike _ _ _ h _ := h
  act _ _ _ _ _ _ h ha _ := h.after ha
  turn _ _ t _ post h _ _ := h.release t post
  lose _ _ t _ h _ := h.release t none

theorem awaitsReceipts_run (o : ClientOptions) (files : FileTree) (hasProcess : Bool) (occurrences : List Occurrence) :
    ∃ k, ((Course.begin o files hasProcess).run occurrences).machine.Disciplined k ∧
      AwaitsReceipts ((Course.begin o files hasProcess).run occurrences).history k := by
  apply invariant_awaitsReceipts.run_begin
  refine ⟨?_, ?_⟩
  · intro t n ht
    rw [Conducts.first_eq_free] at ht
    cases ht
  · intro before t n r hb
    simp at hb

end Liaison
