import Liaison.Proofs.Session.Delivery
import Liaison.Proofs.Session.Story

/-!
# The order of deeds

A call is registered before its request is written, a request is written once, and a call that was refused
writes nothing. The responses are handed on in the order in which they were read.
-/

namespace Liaison

/-! ## Writing -/

structure Orderly (h : History) (calls : List (TaskId × Order)) : Prop where
  written : ∀ before d, before ++ [d] <+: h → ∀ id result, d.write? = some (id, result) →
    (∃ e ∈ before, e.registers id = true) ∧
      ∃ t order, (t, order) ∈ calls ∧ (t, id) ∈ numbers before ∧ d.action = .write (order.frame id)
  once : ((writes h).map Prod.fst).Nodup
  refused : ∀ d ∈ h, ∀ id, d.action = .register id → d.registers id = false →
    standing id h = .unknown ∧ id ∉ (writes h).map Prod.fst

namespace Orderly

variable {h : History} {calls calls' : List (TaskId × Order)} {d : Deed}

theorem nil : Orderly [] calls := by
  refine ⟨?_, List.nodup_nil, fun d hd => absurd hd List.not_mem_nil⟩
  intro before d hp
  have hlength := hp.length_le
  simp at hlength

theorem mono (ho : Orderly h calls) (hc : ∀ p ∈ calls, p ∈ calls') : Orderly h calls' := by
  refine ⟨?_, ho.once, ho.refused⟩
  intro before d hp id result hw
  obtain ⟨hr, t, order, hm, hn, ha⟩ := ho.written before d hp id result hw
  exact ⟨hr, t, order, hc _ hm, hn, ha⟩

/-- Something is done. Only a call that is waited for may be written, and only a new one registered. -/
theorem concat (ho : Orderly h calls)
    (hw : ∀ id result, d.write? = some (id, result) → standing id h ≠ .unknown ∧ fate id h = .dropped ∧
      ∃ t order, (t, order) ∈ calls ∧ (t, id) ∈ numbers h ∧ d.action = .write (order.frame id))
    (hr : ∀ id, d.action = .register id → Unasked id h ∧ fate id h = .dropped) : Orderly (h ++ [d]) calls := by
  -- who was refused is neither taken in nor written
  have hkept : ∀ id, standing id h = .unknown → d.registers id = false → id ∉ (writes h).map Prod.fst →
      standing id (h ++ [d]) = .unknown ∧ id ∉ (writes (h ++ [d])).map Prod.fst := by
    intro id hs hreg hn
    refine ⟨?_, ?_⟩
    · rw [standing_concat, hs, Standing.after, hreg, if_neg Bool.false_ne_true]
    · intro hm
      rw [writes_concat, List.map_append, List.mem_append] at hm
      rcases hm with hm | hm
      · exact hn hm
      · obtain ⟨⟨i, result⟩, hp, rfl⟩ := List.mem_map.mp hm
        exact (hw i result (Option.mem_toList.mp hp)).1 hs
  refine ⟨?_, ?_, ?_⟩
  · intro before e hp id result he
    rcases List.prefix_concat_iff.mp hp with heq | hp
    · obtain ⟨rfl, he'⟩ := List.append_inj' heq rfl
      obtain rfl := List.singleton_inj.mp he'
      obtain ⟨hs, -, hcall⟩ := hw id result he
      exact ⟨exists_register_of_standing hs, hcall⟩
    · exact ho.written before e hp id result he
  · rw [writes_concat, List.map_append]
    cases hd : d.write? with
    | none => simpa using ho.once
    | some p =>
      obtain ⟨id, result⟩ := p
      have hn := not_mem_writes (hw id result hd).2.1
      refine List.nodup_append.mpr ⟨ho.once, List.pairwise_singleton _ _, ?_⟩
      intro i hi j hj e
      obtain rfl : j = id := List.mem_singleton.mp hj
      exact hn (e ▸ hi)
  · intro e he id ha hreg
    rcases List.mem_append.mp he with he | he
    · obtain ⟨hs, hn⟩ := ho.refused e he id ha hreg
      refine hkept id hs ?_ hn
      by_contra hd
      exact (hr id (action_of_registers (Bool.not_eq_false _ ▸ hd))).1 e he ha
    · obtain rfl := List.mem_singleton.mp he
      obtain ⟨hu, hf⟩ := hr id ha
      exact hkept id hu.standing hreg (not_mem_writes hf)

end Orderly

/-! ## Reading -/

namespace Duty

def inHand : Option Duty → List (Nat × Reply)
  | some (delivering id reply) => [(id, reply)]
  | _ => []

variable {m m₁ : Machine} {h : History} {duties : Duties} {t : TaskId} {d d' : Duty} {deed : Deed}

theorem Step.responses (hs : Step m t d deed d' m₁) :
    inHand (some d) ++ deed.response?.toList = deed.fulfillment?.toList ++ inHand (some d') := by
  cases hs with
  | call hs => cases hs <;> rfl
  | tell ticket result => cases result <;> rfl
  | read event inlet hn =>
    cases event with
    | frame v =>
      change [] ++ (Route.ofFrame v).reply?.toList = [] ++ inHand (some (onRoute (.ofFrame v)))
      cases Route.ofFrame v <;> rfl
    | _ => rfl
  | terminate isWriter => cases isWriter <;> rfl
  | _ => rfl

theorem Step.no_responses (hs : Step m t d deed d' m₁) (hd : d.post? ≠ some 1) :
    deed.response? = none ∧ deed.fulfillment? = none := by
  cases hs with
  | call hs => cases hs <;> exact ⟨rfl, rfl⟩
  | read event inlet hn => exact absurd rfl hd
  | deliver id reply => exact absurd rfl hd
  | _ => exact ⟨rfl, rfl⟩

theorem Step.delivered (hs : Step m t d deed d' m₁) (hd : duties t = some d)
    (hp : ∀ p, d.post? = some p → t = p) (hr : Liaison.responses h = fulfillments h ++ inHand (duties 1)) :
    Liaison.responses (h ++ [deed]) =
      fulfillments (h ++ [deed]) ++ inHand (Function.update duties t (some d') 1) := by
  rw [responses_concat, fulfillments_concat, hr]
  by_cases e : t = 1
  · subst e
    rw [Function.update_self, hd, List.append_assoc, List.append_assoc, hs.responses]
  · have hne : d.post? ≠ some 1 := fun h1 => e (hp 1 h1)
    obtain ⟨h₁, h₂⟩ := hs.no_responses hne
    rw [Function.update_of_ne (Ne.symm e), h₁, h₂]
    simp

end Duty

end Liaison
