import Liaison.Proofs.Diagnostic.Freshness
import Mathlib

/-!
# Diagnostics that arrive in any order

Sets of one document that all have a version, or that all have none, are ordered by their stamps: the version
decides first, and then the arrival. In whatever order they come, the greatest of them is the one that stays in the
cache, and what comes for other documents in between makes no difference.
-/

namespace Liaison

namespace Stamp

/-- The version and the arrival, in lexicographic order. No version is below every version. -/
def rank (s : Stamp) : WithBot Int ×ₗ Nat :=
  toLex (s.version, s.sequence)

theorem sequence_eq_of_rank {a b : Stamp} (h : a.rank = b.rank) : a.sequence = b.sequence :=
  congrArg (fun r => (ofLex r).2) h

theorem isOlder_iff_rank_lt {a b : Stamp} (h : a.version.isSome = b.version.isSome) :
    a.isOlder b = true ↔ a.rank < b.rank := by
  rw [rank, rank, Prod.Lex.toLex_lt_toLex]
  cases ha : a.version with
  | none =>
    have hb : b.version = none := by simpa [ha] using h
    rw [isOlder_of_unversioned (.inl ha), hb]
    simp [WithBot.none_eq_bot]
  | some v =>
    obtain ⟨w, hb⟩ : ∃ w, b.version = some w := Option.isSome_iff_exists.mp (by rw [← h, ha]; rfl)
    rw [hb]
    by_cases e : v = w
    · unfold isOlder
      simp [ha, hb, e, WithBot.some_eq_coe]
    · rw [isOlder_of_versions ha hb e]
      simp [e, WithBot.some_eq_coe]

end Stamp

namespace DiagnosticCache

variable {c : DiagnosticCache} {set : DiagnosticSet} {sets : List DiagnosticSet}

/-! ## One document among others -/

def newer (kept : Option DiagnosticSet) (set : DiagnosticSet) : DiagnosticSet :=
  match kept with
  | some s => if set.stamp.isOlder s.stamp then s else set
  | none => set

def newest (kept : Option DiagnosticSet) (sets : List DiagnosticSet) : Option DiagnosticSet :=
  sets.foldl (fun kept set => some (newer kept set)) kept

theorem newest_concat (kept : Option DiagnosticSet) (sets : List DiagnosticSet) (set : DiagnosticSet) :
    newest kept (sets ++ [set]) = some (newer (newest kept sets) set) := by
  simp [newest]

theorem update_snd_iff (c : DiagnosticCache) (set : DiagnosticSet) :
    (c.update set).2 = true ↔ ¬ c.isStale set.uri set.stamp = true := by
  unfold update publish?
  split <;> simp_all

theorem get?_update_self (c : DiagnosticCache) (set : DiagnosticSet) :
    (c.update set).1.sets.get? set.uri = some (newer (c.sets.get? set.uri) set) := by
  by_cases hst : c.isStale set.uri set.stamp = true
  · obtain ⟨s, hs, hold⟩ := (isStale_iff _ _ _).mp hst
    rw [get?_update_of_stale hst, hs, newer, if_pos hold]
  · rw [get?_update_of_fresh hst]
    cases hs : c.sets.get? set.uri with
    | none => rfl
    | some s =>
      have hold : ¬ set.stamp.isOlder s.stamp = true := fun hold => hst ((isStale_iff _ _ _).mpr ⟨s, hs, hold⟩)
      rw [newer, if_neg hold]

theorem get?_update_of_ne {uri : String} (h : set.uri ≠ uri) :
    (c.update set).1.sets.get? uri = c.sets.get? uri := by
  by_cases hst : c.isStale set.uri set.stamp = true
  · exact get?_update_of_stale hst uri
  · unfold update publish?
    rw [if_neg hst]
    exact (Table.get?_insert ..).trans (if_neg (Ne.symm h))

theorem get?_updateAll (c : DiagnosticCache) (uri : String) (sets : List DiagnosticSet) :
    (c.updateAll sets).sets.get? uri = newest (c.sets.get? uri) (sets.filter (·.uri = uri)) := by
  induction sets using List.reverseRecOn with
  | nil => rfl
  | append_singleton sets set ih =>
    rw [updateAll_concat, List.filter_append]
    by_cases e : set.uri = uri
    · subst e
      have hone : [set].filter (·.uri = set.uri) = [set] := by simp
      rw [get?_update_self, ih, hone, newest_concat]
    · have hnone : [set].filter (·.uri = uri) = [] := by simp [e]
      rw [get?_update_of_ne e, ih, hnone, List.append_nil]

/-! ## Sets of one kind -/

/-- All of them have a version, or none has. -/
def OfOneKind (sets : List DiagnosticSet) : Prop :=
  (∀ p ∈ sets, p.stamp.version.isSome) ∨ ∀ p ∈ sets, p.stamp.version = none

theorem OfOneKind.isSome_eq (h : OfOneKind sets) {p q : DiagnosticSet} (hp : p ∈ sets) (hq : q ∈ sets) :
    p.stamp.version.isSome = q.stamp.version.isSome := by
  rcases h with h | h
  · rw [h p hp, h q hq]
  · rw [h p hp, h q hq]

theorem OfOneKind.mono (h : OfOneKind sets) {others : List DiagnosticSet} (hs : others ⊆ sets) : OfOneKind others :=
  h.imp (fun h p hp => h p (hs hp)) (fun h p hp => h p (hs hp))

/-- The set is one of them, and no other one is above it. -/
def IsGreatest (sets : List DiagnosticSet) (s : DiagnosticSet) : Prop :=
  s ∈ sets ∧ ∀ p ∈ sets, p.stamp.rank ≤ s.stamp.rank

theorem isGreatest_singleton (set : DiagnosticSet) : IsGreatest [set] set := by
  simp [IsGreatest]

/-- The set that arrives takes the place of the greatest so far unless it is below it. -/
theorem IsGreatest.concat {s : DiagnosticSet} (h : IsGreatest sets s) (hk : OfOneKind (sets ++ [set])) :
    IsGreatest (sets ++ [set]) (newer (some s) set) := by
  have hset : set ∈ sets ++ [set] := by simp
  have hs : s ∈ sets ++ [set] := List.mem_append_left _ h.1
  rw [newer]
  split
  · rename_i hold
    rw [Stamp.isOlder_iff_rank_lt (hk.isSome_eq hset hs)] at hold
    refine ⟨hs, ?_⟩
    intro p hp
    rcases List.mem_append.mp hp with hp | hp
    · exact h.2 p hp
    · obtain rfl := List.mem_singleton.mp hp
      exact le_of_lt hold
  · rename_i hold
    rw [Stamp.isOlder_iff_rank_lt (hk.isSome_eq hset hs), not_lt] at hold
    refine ⟨hset, ?_⟩
    intro p hp
    rcases List.mem_append.mp hp with hp | hp
    · exact le_trans (h.2 p hp) hold
    · obtain rfl := List.mem_singleton.mp hp
      exact le_refl _

theorem isGreatest_newest (hk : OfOneKind sets) (hne : sets ≠ []) :
    ∃ s, newest none sets = some s ∧ IsGreatest sets s := by
  induction sets using List.reverseRecOn with
  | nil => exact absurd rfl hne
  | append_singleton sets set ih =>
    rw [newest_concat]
    by_cases e : sets = []
    · subst e
      exact ⟨set, rfl, isGreatest_singleton set⟩
    · obtain ⟨s, hs, hg⟩ := ih (hk.mono (List.subset_append_left _ _)) e
      rw [hs]
      exact ⟨_, rfl, hg.concat hk⟩

/-- Sets that arrive at different times have different ranks, so that only one of them is the greatest. -/
theorem IsGreatest.unique (hd : (sets.map (·.stamp.sequence)).Nodup) {s t : DiagnosticSet} (hs : IsGreatest sets s)
    (ht : IsGreatest sets t) : s = t := by
  have hrank : s.stamp.rank = t.stamp.rank := le_antisymm (ht.2 s hs.1) (hs.2 t ht.1)
  exact List.inj_on_of_nodup_map hd hs.1 ht.1 (Stamp.sequence_eq_of_rank hrank)

theorem IsGreatest.perm {others : List DiagnosticSet} (hp : sets.Perm others) {s : DiagnosticSet} :
    IsGreatest sets s ↔ IsGreatest others s := by
  unfold IsGreatest
  simp only [hp.mem_iff]

theorem newest_eq_some_iff (hk : OfOneKind sets) (hd : (sets.map (·.stamp.sequence)).Nodup) (s : DiagnosticSet) :
    newest none sets = some s ↔ IsGreatest sets s := by
  by_cases hne : sets = []
  · subst hne
    simp [newest, IsGreatest]
  · obtain ⟨t, ht, hg⟩ := isGreatest_newest hk hne
    rw [ht, Option.some.injEq]
    constructor
    · rintro rfl
      exact hg
    · exact hg.unique hd

theorem newest_eq_none_iff : newest none sets = none ↔ sets = [] := by
  induction sets using List.reverseRecOn with
  | nil => simp [newest]
  | append_singleton sets set _ => simp [newest_concat]

/-! ## In any order -/

/-- A set of a document is taken in if it is not below the one that is kept. -/
theorem update_snd_iff_of_oneKind {uri : String} (hnone : c.sets.get? uri = none) {before : List DiagnosticSet}
    (hset : set.uri = uri) (hk : OfOneKind (before.filter (·.uri = uri) ++ [set])) :
    ((c.updateAll before).update set).2 = true ↔
      ∀ s, (c.updateAll before).sets.get? uri = some s → ¬ set.stamp.rank < s.stamp.rank := by
  have hkind : ∀ s, (c.updateAll before).sets.get? uri = some s →
      set.stamp.version.isSome = s.stamp.version.isSome := by
    intro s hs
    rw [get?_updateAll, hnone] at hs
    have hne : before.filter (·.uri = uri) ≠ [] := fun e => by simp [e, newest] at hs
    obtain ⟨t, ht, hg⟩ := isGreatest_newest (hk.mono (List.subset_append_left _ _)) hne
    obtain rfl : t = s := Option.some.inj (ht.symm.trans hs)
    exact hk.isSome_eq (by simp) (List.mem_append_left _ hg.1)
  rw [update_snd_iff, isStale_iff, hset]
  constructor
  · intro h s hs hlt
    exact h ⟨s, hs, (Stamp.isOlder_iff_rank_lt (hkind s hs)).mpr hlt⟩
  · rintro h ⟨s, hs, hold⟩
    exact h s hs ((Stamp.isOlder_iff_rank_lt (hkind s hs)).mp hold)

/-- Sets of one document, all with a version or all without, arrive in any order and among sets of other
documents. The greatest of them stays, each one is taken in unless it is below the one that was kept, and what is
kept of any document comes of its own sets alone. -/
theorem get?_updateAll_greatest (c : DiagnosticCache) (uri : String) (hnone : c.sets.get? uri = none)
    (pushes calls : List DiagnosticSet) (hp : (calls.filter (·.uri = uri)).Perm pushes)
    (hd : (pushes.map (·.stamp.sequence)).Nodup) (hk : OfOneKind pushes) :
    (∀ s, (c.updateAll calls).sets.get? uri = some s ↔ IsGreatest pushes s) ∧
      ((c.updateAll calls).sets.get? uri = none ↔ pushes = []) ∧
      (∀ before set after, calls = before ++ set :: after → set.uri = uri →
        (((c.updateAll before).update set).2 = true ↔
          ∀ s, (c.updateAll before).sets.get? uri = some s → ¬ set.stamp.rank < s.stamp.rank)) ∧
      ∀ other, (c.updateAll calls).sets.get? other =
        (c.updateAll (calls.filter (·.uri = other))).sets.get? other := by
  have hkind : OfOneKind (calls.filter (·.uri = uri)) := hk.mono hp.subset
  have hnodup : ((calls.filter (·.uri = uri)).map (·.stamp.sequence)).Nodup := (hp.map _).nodup_iff.mpr hd
  refine ⟨?_, ?_, ?_, ?_⟩
  · intro s
    rw [get?_updateAll, hnone, newest_eq_some_iff hkind hnodup, IsGreatest.perm hp]
  · rw [get?_updateAll, hnone, newest_eq_none_iff]
    exact ⟨fun e => by simpa [e] using hp, fun e => by simpa [e] using hp⟩
  · rintro before set after rfl hset
    apply update_snd_iff_of_oneKind hnone hset
    apply hkind.mono
    simp [List.filter_append, hset]
  · intro other
    rw [get?_updateAll, get?_updateAll, List.filter_filter]
    simp

def ordered : List DiagnosticSet :=
  [⟨"file:///a.rs", [], ⟨some 3, 1⟩⟩, ⟨"file:///a.rs", [], ⟨some 3, 2⟩⟩, ⟨"file:///a.rs", [], ⟨some 2, 5⟩⟩]

def shuffled : List DiagnosticSet :=
  [⟨"file:///a.rs", [], ⟨some 2, 5⟩⟩, ⟨"file:///b.rs", [], ⟨none, 4⟩⟩, ⟨"file:///a.rs", [], ⟨some 3, 2⟩⟩,
    ⟨"file:///a.rs", [], ⟨some 3, 1⟩⟩]

theorem get?_updateAll_greatest_shuffled :
    (shuffled.filter (·.uri = "file:///a.rs")).Perm ordered ∧ (ordered.map (·.stamp.sequence)).Nodup ∧
      OfOneKind ordered ∧
      (empty.updateAll shuffled).sets.get? "file:///a.rs" = some ⟨"file:///a.rs", [], ⟨some 3, 2⟩⟩ := by
  have hp : (shuffled.filter (·.uri = "file:///a.rs")).Perm ordered := by decide
  have hd : (ordered.map (·.stamp.sequence)).Nodup := by decide
  have hk : OfOneKind ordered := .inl (by decide)
  refine ⟨hp, hd, hk, ?_⟩
  obtain ⟨hgreatest, -⟩ := get?_updateAll_greatest empty "file:///a.rs" rfl ordered shuffled hp hd hk
  exact (hgreatest ⟨"file:///a.rs", [], ⟨some 3, 2⟩⟩).mpr ⟨by decide, by decide⟩

end DiagnosticCache

end Liaison
