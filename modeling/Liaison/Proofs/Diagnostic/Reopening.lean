import Liaison.Proofs.Diagnostic.Freshness
import Liaison.Proofs.Document.Versions

/-!
# Diagnostics of reopened documents

The versions of a document start again whenever it is opened. So the version of the diagnostics that are kept for it
is forgotten once it is closed, and what comes then counts as newer. But a push of the earlier opening may come as
well, and it leaves its version in the cache again. As long as it is kept, what the server has to say about the
document in its new opening is discarded; and nothing else is ever in the way.
-/

namespace Liaison

def Deed.takesIn? : Deed → Option DiagnosticSet
  | ⟨_, .publish set, true⟩ => some set
  | _ => none

/-- Of all that was taken in about its document the set came last, and no version of the document was forgotten
since. -/
def IsKept (set : DiagnosticSet) : History → Prop :=
  Since (fun _ d => d.takesIn? = some set) fun e =>
    (∀ other, e.takesIn? = some other → other.uri ≠ set.uri) ∧ e.action ≠ .forgetVersion set.uri

structure Deed.IsAside (d : Deed) : Prop where
  takesIn : d.takesIn? = none
  forgets : ∀ uri, d.action ≠ .forgetVersion uri

theorem isKept_concat_of_aside {set : DiagnosticSet} {h : History} {d : Deed} (hd : d.IsAside) :
    IsKept set (h ++ [d]) ↔ IsKept set h := by
  rw [IsKept, since_concat, hd.takesIn]
  constructor
  · rintro (he | ⟨hs, -⟩)
    · cases he
    · exact hs
  · refine fun hs => .inr ⟨hs, ?_, hd.forgets _⟩
    intro other he
    cases he

theorem post_after {k : Conduct} {a : Action} {answer : a.Answer} (ha : k.Allows a) {n : Nat}
    (h : (k.after a answer).post = some n) : ∃ n', k.post = some n' ∧ n' ≤ n := by
  cases a with
  | publish set =>
    obtain ⟨sequence, hs, hn⟩ := ha
    cases h
    exact ⟨sequence, hs, by omega⟩
  | _ => exact ⟨n, h, Nat.le_refl n⟩

/-! ## The cache and its history -/

theorem DiagnosticCache.get?_forgetVersion (c : DiagnosticCache) (uri v : String) :
    (c.forgetVersion uri).sets.get? v =
      if v = uri then (c.sets.get? uri).map fun set => { set with stamp := { set.stamp with version := none } }
      else c.sets.get? v := by
  unfold forgetVersion
  cases h : c.sets.get? uri with
  | some set => exact Table.get?_insert v uri _ _
  | none =>
    by_cases e : v = uri
    · rw [if_pos e, e]
      exact h
    · rw [if_neg e]

structure Course.Dated (x : Course) (k : Conducts) : Prop where
  single : ∀ t u m n, (k t).post = some m → (k u).post = some n → t = u
  named : ∀ uri set, x.machine.diagnostics.sets.get? uri = some set → set.uri = uri
  arrived : ∀ t n, (k t).post = some n → ∀ uri set, x.machine.diagnostics.sets.get? uri = some set →
    set.stamp.sequence ≤ n
  kept : ∀ uri set v, x.machine.diagnostics.sets.get? uri = some set → set.stamp.version = some v →
    IsKept set x.history
  still : ∀ set, IsKept set x.history → x.machine.diagnostics.sets.get? set.uri = some set

namespace Course.Dated

variable {x : Course} {k k' : Conducts} {m : Machine} {t : TaskId} {a : Action} {answer : a.Answer}

theorem of_same (h : x.Dated k) (hm : m.diagnostics.sets = x.machine.diagnostics.sets)
    (hp : ∀ u n, (k' u).post = some n → ∃ n', (k u).post = some n' ∧ n' ≤ n) : Dated ⟨m, x.history⟩ k' := by
  refine ⟨?_, ?_, ?_, ?_, ?_⟩
  · intro u v m n hu hv
    obtain ⟨m', hu', -⟩ := hp u m hu
    obtain ⟨n', hv', -⟩ := hp v n hv
    exact h.single u v m' n' hu' hv'
  · rw [hm]
    exact h.named
  · rw [hm]
    intro u n hu uri set hs
    obtain ⟨n', hu', hle⟩ := hp u n hu
    exact Nat.le_trans (h.arrived u n' hu' uri set hs) hle
  · rw [hm]
    exact h.kept
  · rw [hm]
    exact h.still

theorem concat (h : x.Dated k) {d : Deed} (hd : d.IsAside) : Dated ⟨x.machine, x.history ++ [d]⟩ k := by
  refine ⟨h.single, h.named, h.arrived, ?_, ?_⟩
  · intro uri set v hs hv
    rw [isKept_concat_of_aside hd]
    exact h.kept uri set v hs hv
  · intro set hk
    rw [isKept_concat_of_aside hd] at hk
    exact h.still set hk

theorem post_update {c : Conduct} (hc : ∀ n, c.post = some n → ∃ n', (k t).post = some n' ∧ n' ≤ n) :
    ∀ u n, (Function.update k t c u).post = some n → ∃ n', (k u).post = some n' ∧ n' ≤ n := by
  intro u n hu
  by_cases e : u = t
  · rw [e, Function.update_self] at hu
    rw [e]
    exact hc n hu
  · rw [Function.update_of_ne e] at hu
    exact ⟨n, hu, Nat.le_refl n⟩

theorem post_update_after (ha : (k t).Allows a) (answer : a.Answer) :
    ∀ u n, (Function.update k t ((k t).after a answer) u).post = some n → ∃ n', (k u).post = some n' ∧ n' ≤ n :=
  post_update fun _ hn => post_after ha hn

theorem takeIn (h : x.Dated k) {set : DiagnosticSet} (ha : (k t).Allows (.publish set)) :
    Dated ⟨{ x.machine with
        diagnostics := { x.machine.diagnostics with sets := x.machine.diagnostics.sets.insert set.uri set } },
      x.history ++ [⟨t, .publish set, true⟩]⟩ (Function.update k t ((k t).after (.publish set) true)) := by
  have hposts := post_update_after ha true
  have hget : ∀ uri s, Table.get? uri (x.machine.diagnostics.sets.insert set.uri set) = some s →
      (uri = set.uri ∧ s = set) ∨ (uri ≠ set.uri ∧ x.machine.diagnostics.sets.get? uri = some s) := by
    intro uri s hs
    rw [Table.get?_insert] at hs
    split at hs
    · rename_i e
      cases hs
      exact .inl ⟨e, rfl⟩
    · rename_i e
      exact .inr ⟨e, hs⟩
  refine ⟨(h.of_same (m := x.machine) rfl hposts).single, ?_, ?_, ?_, ?_⟩
  · intro uri s hs
    rcases hget uri s hs with ⟨rfl, rfl⟩ | ⟨-, hs⟩
    · rfl
    · exact h.named uri s hs
  · intro u n hu uri s hs
    rcases hget uri s hs with ⟨rfl, rfl⟩ | ⟨-, hs⟩
    · obtain ⟨n', hn', -⟩ := hposts u n hu
      obtain ⟨sequence, hpost, -⟩ := ha
      have e := h.single u t n' sequence hn' hpost
      rw [e, Function.update_self] at hu
      cases hu
      exact Nat.le_refl _
    · obtain ⟨n', hn', hle⟩ := hposts u n hu
      exact Nat.le_trans (h.arrived u n' hn' uri s hs) hle
  · intro uri s v hs hv
    rcases hget uri s hs with ⟨-, rfl⟩ | ⟨e, hs⟩
    · exact since_concat.mpr (.inl rfl)
    · refine since_concat.mpr (.inr ⟨h.kept uri s v hs hv, ?_, ?_⟩)
      · intro other ho
        cases ho
        rw [h.named uri s hs]
        exact e.symm
      · intro e
        cases e
  · intro s hs
    rcases since_concat.mp hs with hd | ⟨hs, hd, -⟩
    · cases hd
      exact (Table.get?_insert _ _ _ _).trans (if_pos rfl)
    · exact (Table.get?_insert _ _ _ _).trans ((if_neg (hd set rfl).symm).trans (h.still s hs))

theorem forget (h : x.Dated k) (uri : String) :
    Dated ⟨{ x.machine with diagnostics := x.machine.diagnostics.forgetVersion uri },
      x.history ++ [⟨t, .forgetVersion uri, ()⟩]⟩ k := by
  have hget : ∀ v s, (x.machine.diagnostics.forgetVersion uri).sets.get? v = some s →
      ∃ set, x.machine.diagnostics.sets.get? v = some set ∧ s.uri = set.uri ∧
        s.stamp.sequence = set.stamp.sequence ∧ (s.stamp.version = none ∨ (v ≠ uri ∧ s = set)) := by
    intro v s hs
    rw [DiagnosticCache.get?_forgetVersion] at hs
    split at hs
    · rename_i e
      obtain ⟨set, hset, rfl⟩ := Option.map_eq_some_iff.mp hs
      exact ⟨set, e ▸ hset, rfl, rfl, .inl rfl⟩
    · rename_i e
      exact ⟨s, hs, rfl, rfl, .inr ⟨e, rfl⟩⟩
  refine ⟨h.single, ?_, ?_, ?_, ?_⟩
  · intro v s hs
    obtain ⟨set, hset, hu, -⟩ := hget v s hs
    exact hu.trans (h.named v set hset)
  · intro u n hu v s hs
    obtain ⟨set, hset, -, hn, -⟩ := hget v s hs
    rw [hn]
    exact h.arrived u n hu v set hset
  · intro v s w hs hw
    obtain ⟨set, hset, -, -, hn | ⟨e, rfl⟩⟩ := hget v s hs
    · rw [hn] at hw
      cases hw
    · refine since_concat.mpr (.inr ⟨h.kept v s w hset hw, ?_, ?_⟩)
      · intro other ho
        cases ho
      · intro ef
        cases ef
        exact e (h.named v s hset).symm
  · intro s hs
    rcases since_concat.mp hs with hd | ⟨hs, -, hd⟩
    · cases hd
    · have e : s.uri ≠ uri := fun e => hd (by rw [e])
      exact (DiagnosticCache.get?_forgetVersion _ uri s.uri).trans ((if_neg e).trans (h.still s hs))

theorem perform (h : x.Dated k) (ha : (k t).Allows a) (hp : x.machine.perform t a = some (answer, m)) :
    Dated ⟨m, x.history ++ [⟨t, a, answer⟩]⟩ (Function.update k t ((k t).after a answer)) := by
  have hposts := post_update_after ha answer
  cases a with
  | publish set =>
    simp only [Machine.perform, Machine.publish, DiagnosticCache.publish?] at hp
    split at hp
    · rename_i cache hcache
      split at hcache
      · cases hcache
      · cases hcache
        cases hp
        exact h.takeIn ha
    · cases hp
      refine (h.of_same rfl hposts).concat ⟨rfl, ?_⟩
      intro uri e
      cases e
  | forgetVersion uri =>
    cases hp
    exact (h.of_same (m := x.machine) rfl hposts).forget uri
  | giveNotice =>
    cases hp
    refine (h.of_same ?_ hposts).concat ?_
    · rfl
    · refine ⟨rfl, ?_⟩
      intro uri e
      cases e
  | _ =>
    refine (h.of_same ?_ hposts).concat ?_
    · rw [(spares_perform hp).diagnostics (by simp [Action.reach])]
    · refine ⟨rfl, ?_⟩
      intro uri e
      cases e

end Course.Dated

theorem invariant_dated : Course.Invariant Course.Dated where
  alike _ _ _ h hm := h.of_same (by rw [hm.diagnostics]) fun _ n hu => ⟨n, hu, Nat.le_refl n⟩
  act _ _ _ _ _ _ h ha hp := h.perform ha hp
  turn _ _ _ post _ h hk hp := by
    refine h.of_same rfl (Course.Dated.post_update ?_)
    intro n hn
    rcases hp with rfl | rfl
    · cases hn
    · exact ⟨n, by rw [hk, hn], Nat.le_refl n⟩
  lose _ _ _ _ h hm := by
    refine h.of_same (by rw [hm.diagnostics]) (Course.Dated.post_update ?_)
    intro n hn
    cases hn

theorem dated_blank (o : ClientOptions) (files : FileTree) :
    Course.Dated ⟨.blank o files .starting, []⟩ .first := by
  have hpost : ∀ t n, (Conducts.first t).post = some n → t = 2 := by
    intro t n ht
    by_contra e
    rw [Conducts.first, Function.update_of_ne e] at ht
    cases ht
  refine ⟨?_, ?_, ?_, ?_, ?_⟩
  · intro t u m n ht hu
    rw [hpost t m ht, hpost u n hu]
  · intro uri set hs
    cases hs
  · intro t n _ uri set hs
    cases hs
  · intro uri set v hs
    cases hs
  · intro set hk
    exact absurd hk not_since_nil

/-! ## Pushes that are discarded -/

theorem Machine.publish_eq_false_iff (m : Machine) (set : DiagnosticSet) : (m.publish set).1 = false ↔
    ∃ other, m.diagnostics.sets.get? set.uri = some other ∧ set.stamp.isOlder other.stamp = true := by
  rw [← DiagnosticCache.isStale_iff]
  unfold Machine.publish DiagnosticCache.publish?
  cases m.diagnostics.isStale set.uri set.stamp <;> simp

def Machine.nextPush? (m : Machine) (t : TaskId) : Option DiagnosticSet :=
  match m.tasks.get? t with
  | some (.step (.publish set) _) => some set
  | _ => none

theorem allows_nextPush {m : Machine} {k : Conducts} (hd : m.Disciplined k) {t : TaskId} {set : DiagnosticSet}
    (h : m.nextPush? t = some set) : (k t).Allows (.publish set) := by
  unfold Machine.nextPush? at h
  split at h
  · rename_i ht
    cases h
    exact (hd.obeys t _ ht).1
  · cases h

/-- Whatever happens to a session: diagnostics that carry the version which their document has are discarded only as
long as others are kept that carry a version above all those that the document had since it was opened. -/
theorem publish_eq_false_iff_overtaken (o : ClientOptions) (files : FileTree) (hasProcess : Bool)
    (occurrences : List Occurrence) (t : TaskId) (set : DiagnosticSet) (document : OpenDocument)
    (ht : ((Course.begin o files hasProcess).run occurrences).machine.nextPush? t = some set)
    (hd : ((Course.begin o files hasProcess).run occurrences).machine.documents.get? set.uri = some document)
    (hv : set.stamp.version = some (document.version : Int)) :
    (((Course.begin o files hasProcess).run occurrences).machine.publish set).1 = false ↔
      ∃ other w, IsKept other ((Course.begin o files hasProcess).run occurrences).history ∧ other.uri = set.uri ∧
        other.stamp.version = some w ∧
        ∀ v, HasHad set.uri v ((Course.begin o files hasProcess).run occurrences).history → (v : Int) < w := by
  obtain ⟨k, hrules, hdated, htended⟩ := (invariant_dated.and invariant_tended).run_begin
    ⟨dated_blank o files, tended_blank o files⟩ hasProcess occurrences
  generalize (Course.begin o files hasProcess).run occurrences = x at *
  obtain ⟨sequence, hpost, hn⟩ := allows_nextPush hrules ht
  rw [Machine.publish_eq_false_iff]
  constructor
  · rintro ⟨other, hother, holder⟩
    have harrived := hdated.arrived t sequence hpost set.uri other hother
    obtain ⟨v, w, hv', hw, hlt⟩ := (Stamp.isOlder_of_arrival (by omega)).mp holder
    rw [hv] at hv'
    cases hv'
    refine ⟨other, w, hdated.kept set.uri other w hother hw, hdated.named set.uri other hother, hw, ?_⟩
    intro v hhad
    obtain ⟨document', hd', hle⟩ := htended.had set.uri v hhad
    rw [hd] at hd'
    cases hd'
    omega
  · rintro ⟨other, w, hkept, hu, hw, habove⟩
    have hlt := habove document.version (htended.has set.uri document hd)
    refine ⟨other, hu ▸ hdated.still other hkept, ?_⟩
    rw [Stamp.isOlder_of_versions hv hw (Int.ne_of_lt hlt)]
    exact decide_eq_true hlt

def reopeningFiles (text : Bytes) : FileTree :=
  ⟨[([[0x77]], .directory), ([[0x77], [0x61]], .file text)], []⟩

/-- A document is opened, changed and closed. Then diagnostics of its second version come, the document is opened
again, and diagnostics of its first version come. -/
def reopening : List Occurrence :=
  let turns (n : Nat) (tasks : List TaskId) : List Occurrence := (List.replicate n (tasks.map .step)).flatten
  let push (version : Nat) : Occurrence :=
    .receive <| Frame.write <| Message.toJson <| .notification "textDocument/publishDiagnostics" <| some <|
      Json.ofMembers [("uri", .str "file:///w/a"), ("version", .ofNat version), ("diagnostics", .arr [])]
  List.flatten [
    [.start .handshake], turns 9 [3, 0], [.receive (Frame.write (Message.reply (.ofNat 1) (.obj [])).toJson)],
    turns 9 [1, 3, 0],
    [.start (.openFile [0x61])], turns 15 [4, 0],
    [.setFiles (reopeningFiles [0x79]), .start (.fileChanged [0x61])], turns 15 [5, 0],
    [.start (.closeFile [0x61])], turns 15 [6, 0],
    [push 2], turns 8 [1, 2],
    [.start (.openFile [0x61])], turns 15 [7, 0],
    [push 1], turns 3 [1], turns 2 [2]]

/-- The diagnostics of the first version are discarded, although the document has that version again. -/
theorem publish_eq_false_iff_overtaken_reopening :
    let x := (Course.begin ⟨"rust", "rust", [0x2F, 0x77], none, 1, 1, .null⟩ (reopeningFiles [0x78]) false).run
      reopening
    let set : DiagnosticSet := ⟨"file:///w/a", [], ⟨some 1, 2⟩⟩
    (x.machine.nextPush? 2 = some set ∧
      x.machine.documents.get? set.uri = some ⟨"file:///w/a", "rust", 1, .full, "y"⟩ ∧
      (x.machine.publish set).1 = false) ∧
    ∃ other w, IsKept other x.history ∧ other.uri = set.uri ∧ other.stamp.version = some w ∧
      ∀ v, HasHad set.uri v x.history → (v : Int) < w := by
  intro x set
  have h : x.machine.nextPush? 2 = some set ∧
      x.machine.documents.get? set.uri = some ⟨"file:///w/a", "rust", 1, .full, "y"⟩ ∧
      (x.machine.publish set).1 = false := by decide +kernel
  exact ⟨h, (publish_eq_false_iff_overtaken _ _ _ reopening 2 set _ h.1 h.2.1 rfl).mp h.2.2⟩

end Liaison
