import Liaison.Diagnostic.Cache
import Mathlib.Data.List.Induction
import Mathlib.Data.List.Nodup

/-!
# Which diagnostics stay in the cache

Sets of one document arrive one after another. Two stamps are compared by their versions only if both have
one, so "older" is not transitive: a set without a version is newer than all that arrived before it, and
whatever arrives after it is newer in turn. The set that stays in the cache is older than another one only
if a set without a version arrived between the two.
-/

namespace Liaison

namespace Stamp

variable {a b c : Stamp}

theorem isOlder_of_versions {v w : Int} (ha : a.version = some v) (hb : b.version = some w) (hne : v ≠ w) :
    a.isOlder b = decide (v < w) := by
  unfold isOlder
  rw [ha, hb]
  simp [hne]

theorem isOlder_of_unversioned (h : a.version = none ∨ b.version = none) :
    a.isOlder b = decide (a.sequence < b.sequence) := by
  unfold isOlder
  rcases h with h | h
  · rw [h]
  · rw [h]
    cases a.version <;> rfl

theorem isOlder_of_arrival (h : b.sequence < a.sequence) :
    a.isOlder b = true ↔ ∃ v w, a.version = some v ∧ b.version = some w ∧ v < w := by
  unfold isOlder
  cases ha : a.version with
  | none => simp; omega
  | some v =>
    cases hb : b.version with
    | none => simp; omega
    | some w =>
      by_cases e : v = w
      · simp [e]; omega
      · simp [e]

theorem not_isOlder_self (a : Stamp) : ¬ a.isOlder a = true := by
  unfold isOlder
  cases a.version <;> simp

/-- By their versions alone stamps are ordered: this is where the third one comes in. -/
theorem isOlder_trans_of_versions {u v w : Int} (ha : a.version = some u) (hb : b.version = some v)
    (hc : c.version = some w) (hab : ¬ a.isOlder b = true) (hbc : ¬ b.isOlder c = true) : ¬ u < w := by
  intro h
  have hvu : ¬ u < v := by
    intro huv
    rw [isOlder_of_versions ha hb (Int.ne_of_lt huv)] at hab
    simp [huv] at hab
  have hwv : ¬ v < w := by
    intro hvw
    rw [isOlder_of_versions hb hc (Int.ne_of_lt hvw)] at hbc
    simp [hvw] at hbc
  omega

end Stamp

namespace DiagnosticCache

def updateAll (c : DiagnosticCache) (sets : List DiagnosticSet) : DiagnosticCache :=
  sets.foldl (fun c set => (c.update set).1) c

theorem updateAll_concat (c : DiagnosticCache) (sets : List DiagnosticSet) (set : DiagnosticSet) :
    c.updateAll (sets ++ [set]) = ((c.updateAll sets).update set).1 := by
  simp [updateAll]

variable {c : DiagnosticCache} {set : DiagnosticSet}

theorem get?_update_of_stale (h : c.isStale set.uri set.stamp = true) (uri : String) :
    (c.update set).1.sets.get? uri = c.sets.get? uri := by
  unfold update publish?
  rw [if_pos h]

theorem get?_update_of_fresh (h : ¬ c.isStale set.uri set.stamp = true) :
    (c.update set).1.sets.get? set.uri = some set := by
  unfold update publish?
  rw [if_neg h]
  simp [notify]

/-! ## Sets of one document -/

/-- Did a set without a version arrive between the two stamps? -/
def Parted (sets : List DiagnosticSet) (a b : Stamp) : Prop :=
  ∃ q ∈ sets, q.stamp.version = none ∧ a.sequence < q.stamp.sequence ∧ q.stamp.sequence < b.sequence

theorem Parted.concat {sets : List DiagnosticSet} {a b : Stamp} (h : Parted sets a b) (set : DiagnosticSet) :
    Parted (sets ++ [set]) a b := by
  obtain ⟨q, hq, hrest⟩ := h
  exact ⟨q, List.mem_append_left _ hq, hrest⟩

/-- The sets that have arrived are those of a document, each after the others and after what was there. -/
structure Arrived (before : Option DiagnosticSet) (uri : String) (sets : List DiagnosticSet) : Prop where
  uris : ∀ p ∈ sets, p.uri = uri
  increasing : sets.Pairwise fun p q => p.stamp.sequence < q.stamp.sequence
  later : ∀ s ∈ before, ∀ p ∈ sets, s.stamp.sequence < p.stamp.sequence

theorem Arrived.of_concat {before : Option DiagnosticSet} {uri : String} {sets : List DiagnosticSet}
    (h : Arrived before uri (sets ++ [set])) :
    Arrived before uri sets ∧ set.uri = uri ∧ (∀ p ∈ sets, p.stamp.sequence < set.stamp.sequence) ∧
      ∀ s ∈ before, s.stamp.sequence < set.stamp.sequence := by
  obtain ⟨hinc, -, hlast⟩ := List.pairwise_append.mp h.increasing
  refine ⟨⟨?_, hinc, ?_⟩, ?_, ?_, ?_⟩
  · intro p hp
    exact h.uris p (List.mem_append_left _ hp)
  · intro s hs p hp
    exact h.later s hs p (List.mem_append_left _ hp)
  · apply h.uris
    simp
  · intro p hp
    apply hlast p hp
    simp
  · intro s hs
    apply h.later s hs
    simp

structure Latest (before : Option DiagnosticSet) (sets : List DiagnosticSet) (s : DiagnosticSet) : Prop where
  mem : s ∈ sets ∨ s ∈ before
  parted : ∀ p ∈ sets, s.stamp.isOlder p.stamp = true → Parted sets p.stamp s.stamp

namespace Latest

variable {before : Option DiagnosticSet} {uri : String} {sets : List DiagnosticSet} {s : DiagnosticSet}

theorem first (set : DiagnosticSet) : Latest before ([] ++ [set]) set := by
  refine ⟨.inl (List.mem_singleton_self set), ?_⟩
  intro p hp hp'
  obtain rfl := List.mem_singleton.mp hp
  exact absurd hp' (Stamp.not_isOlder_self _)

/-- The set is stale, so it has a version, which is less than the one in the cache. -/
theorem keep (h : Latest before sets s) (hs : s.stamp.sequence < set.stamp.sequence)
    (hold : set.stamp.isOlder s.stamp = true) : Latest before (sets ++ [set]) s := by
  refine ⟨h.mem.imp_left (List.mem_append_left _), ?_⟩
  intro p hp hp'
  rcases List.mem_append.mp hp with hp | hp
  · exact (h.parted p hp hp').concat set
  · obtain rfl := List.mem_singleton.mp hp
    obtain ⟨v, w, hv, hw, hlt⟩ := (Stamp.isOlder_of_arrival hs).mp hold
    rw [Stamp.isOlder_of_versions hw hv (Int.ne_of_gt hlt)] at hp'
    simp at hp'
    omega

/-- The set replaces the one in the cache. A set that is newer by its version is parted from it, either from
before or by the set that was replaced. -/
theorem replace (h : Latest before sets s) (ha : Arrived before uri (sets ++ [set]))
    (hs : s.stamp.sequence < set.stamp.sequence) (hold : ¬ set.stamp.isOlder s.stamp = true) :
    Latest before (sets ++ [set]) set := by
  obtain ⟨harrived, -, hlast, -⟩ := ha.of_concat
  refine ⟨.inl (List.mem_append_right _ (List.mem_singleton_self set)), ?_⟩
  intro p hp hp'
  rcases List.mem_append.mp hp with hp | hp
  swap
  · obtain rfl := List.mem_singleton.mp hp
    exact absurd hp' (Stamp.not_isOlder_self _)
  obtain ⟨v, w, hv, hw, hlt⟩ := (Stamp.isOlder_of_arrival (hlast p hp)).mp hp'
  by_cases hsp : s.stamp.isOlder p.stamp = true
  · obtain ⟨q, hq, hnone, hpq, hqs⟩ := h.parted p hp hsp
    exact ⟨q, List.mem_append_left _ hq, hnone, hpq, Nat.lt_trans hqs hs⟩
  · cases hu : s.stamp.version with
    | some u => exact absurd hlt (Stamp.isOlder_trans_of_versions hv hu hw hold hsp)
    | none =>
      rw [Stamp.isOlder_of_unversioned (.inl hu)] at hsp
      have hle : p.stamp.sequence ≤ s.stamp.sequence := by simpa using hsp
      have hmem : s ∈ sets := by
        rcases h.mem with hm | hm
        · exact hm
        · have := harrived.later s hm p hp
          omega
      have hne : p ≠ s := by
        rintro rfl
        rw [hu] at hw
        cases hw
      have hne' : p.stamp.sequence ≠ s.stamp.sequence := by
        have hnodup : (sets.map fun p => p.stamp.sequence).Nodup :=
          List.pairwise_map.mpr (harrived.increasing.imp Nat.ne_of_lt)
        exact fun e => hne (List.inj_on_of_nodup_map hnodup hp hmem e)
      exact ⟨s, List.mem_append_left _ hmem, hu, by omega, hs⟩

end Latest

theorem isStale_iff (c : DiagnosticCache) (uri : String) (stamp : Stamp) :
    c.isStale uri stamp = true ↔ ∃ s, c.sets.get? uri = some s ∧ stamp.isOlder s.stamp = true := by
  unfold isStale
  cases c.sets.get? uri <;> simp

theorem latest_updateAll {uri : String} {sets : List DiagnosticSet} (h : Arrived (c.sets.get? uri) uri sets) :
    (sets = [] ∧ (c.updateAll sets).sets.get? uri = c.sets.get? uri) ∨
      ∃ s, (c.updateAll sets).sets.get? uri = some s ∧ Latest (c.sets.get? uri) sets s := by
  induction sets using List.reverseRecOn with
  | nil => exact .inl ⟨rfl, rfl⟩
  | append_singleton sets set ih =>
    obtain ⟨harrived, rfl, hlast, hbefore⟩ := h.of_concat
    have hlatest : ∀ s, (c.updateAll sets).sets.get? set.uri = some s → Latest (c.sets.get? set.uri) sets s := by
      intro s hs
      rcases ih harrived with ⟨rfl, he⟩ | ⟨s', hs', hl⟩
      · exact ⟨.inr (he.symm.trans hs), by simp⟩
      · rw [hs] at hs'
        cases hs'
        exact hl
    have hearlier : ∀ s, Latest (c.sets.get? set.uri) sets s → s.stamp.sequence < set.stamp.sequence :=
      fun s hl => hl.mem.elim (hlast s) (hbefore s)
    rw [updateAll_concat]
    refine .inr ?_
    by_cases hst : (c.updateAll sets).isStale set.uri set.stamp = true
    · obtain ⟨s, hs, hold⟩ := (isStale_iff _ _ _).mp hst
      rw [get?_update_of_stale hst]
      have hl := hlatest s hs
      exact ⟨s, hs, hl.keep (hearlier s hl) hold⟩
    · rw [get?_update_of_fresh hst]
      refine ⟨set, rfl, ?_⟩
      cases hs : (c.updateAll sets).sets.get? set.uri with
      | none =>
        rcases ih harrived with ⟨rfl, -⟩ | ⟨s, hs', -⟩
        · exact .first set
        · rw [hs] at hs'
          cases hs'
      | some s =>
        have hl := hlatest s hs
        refine hl.replace h (hearlier s hl) ?_
        intro hold
        exact hst ((isStale_iff _ _ _).mpr ⟨s, hs, hold⟩)

/-- Sets of a document arrive in any mix, with and without versions. One of them stays in the cache, or the one
that was there, and it is older than another only if a set without a version arrived between the two. -/
theorem parted_of_isOlder (c : DiagnosticCache) (uri : String) (sets : List DiagnosticSet)
    (h : Arrived (c.sets.get? uri) uri sets) (hne : sets ≠ []) :
    ∃ s, (c.updateAll sets).sets.get? uri = some s ∧ (s ∈ sets ∨ c.sets.get? uri = some s) ∧
      ∀ p ∈ sets, s.stamp.isOlder p.stamp = true → Parted sets p.stamp s.stamp := by
  rcases latest_updateAll h with ⟨he, -⟩ | ⟨s, hs, hl⟩
  · exact absurd he hne
  · exact ⟨s, hs, hl.mem, hl.parted⟩

def mixed : List DiagnosticSet :=
  [⟨"file:///a.rs", [], ⟨some 3, 1⟩⟩, ⟨"file:///a.rs", [], ⟨none, 2⟩⟩, ⟨"file:///a.rs", [], ⟨some 2, 3⟩⟩]

theorem arrived_mixed : Arrived none "file:///a.rs" mixed :=
  ⟨by decide, by decide, by simp⟩

theorem parted_of_isOlder_mixed :
    Arrived (empty.sets.get? "file:///a.rs") "file:///a.rs" mixed ∧ mixed ≠ [] ∧
      Parted mixed ⟨some 3, 1⟩ ⟨some 2, 3⟩ := by
  refine ⟨arrived_mixed, by decide, ?_⟩
  obtain ⟨s, hs, -, hparted⟩ := parted_of_isOlder empty "file:///a.rs" mixed arrived_mixed (by decide)
  have hlast : (empty.updateAll mixed).sets.get? "file:///a.rs" =
      some ⟨"file:///a.rs", [], ⟨some 2, 3⟩⟩ := by decide
  rw [hlast] at hs
  cases hs
  exact hparted ⟨"file:///a.rs", [], ⟨some 3, 1⟩⟩ (by decide) (by decide)

/-- The last of them stays in the cache, and it is older than the first. No other one could stay in its place:
each is older than another one. -/
theorem isOlder_snapshot_mixed :
    Arrived none "file:///a.rs" mixed ∧
      (∃ p ∈ mixed, ((empty.updateAll mixed).snapshot "file:///a.rs").stamp.isOlder p.stamp = true) ∧
      ∀ s ∈ mixed, ∃ p ∈ mixed, s.stamp.isOlder p.stamp = true := by
  refine ⟨arrived_mixed, ?_, ?_⟩
  · decide
  · decide

end DiagnosticCache

end Liaison
