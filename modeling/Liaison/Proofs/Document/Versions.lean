import Liaison.Proofs.Document.Lines
import Liaison.Proofs.Session.Invariance
import Mathlib.Data.List.Nodup

/-!
# Versions of open documents

Any number of tasks may work on documents, one at a time on each. Whoever has its turn knows what is open, so the
versions of a document ascend from its opening to its closing.
-/

namespace Liaison

/-- The document was given the version, and it was not closed since. -/
def HasHad (uri : String) (version : Nat) : History → Prop :=
  Since (fun _ d => ∃ document : OpenDocument, d.action = .commit uri (some document) ∧ document.version = version)
    fun e => e.action ≠ .commit uri none

theorem hasHad_concat_of_ne {uri : String} {version : Nat} {h : History} {d : Deed}
    (hd : ∀ after, d.action ≠ .commit uri after) : HasHad uri version (h ++ [d]) ↔ HasHad uri version h := by
  rw [HasHad, since_concat]
  constructor
  · rintro (⟨document, ha, -⟩ | ⟨hs, -⟩)
    · exact absurd ha (hd _)
    · exact hs
  · exact fun hs => .inr ⟨hs, hd none⟩

def Desk.turn? : Desk → Option String
  | first uri => some uri
  | working uri _ => some uri
  | _ => none

/-! ## Lines -/

structure Machine.Queued (m : Machine) (k : Conducts) : Prop where
  nodup : ∀ uri, (m.line uri).Nodup
  placed : ∀ uri t, t ∈ m.line uri ↔ (k t).desk.uri? = some uri
  first : ∀ uri t, (k t).desk.turn? = some uri → (m.line uri).head? = some t

namespace Machine.Queued

variable {m m' : Machine} {k : Conducts} {t u : TaskId} {c : Conduct} {uri : String}

theorem eq_of_turn? (h : m.Queued k) (ht : (k t).desk.turn? = some uri) (hu : (k u).desk.turn? = some uri) :
    t = u := by
  have e := h.first uri t ht
  rw [h.first uri u hu] at e
  exact (Option.some.inj e).symm

theorem of_lines (h : m.Queued k) (hl : m'.lines = m.lines) : m'.Queued k := by
  have hline : ∀ uri, m'.line uri = m.line uri := fun uri => by rw [Machine.line, hl, Machine.line]
  exact ⟨fun uri => hline uri ▸ h.nodup uri, fun uri => hline uri ▸ h.placed uri, fun uri => hline uri ▸ h.first uri⟩

/-- A task stays in its line, and works only if it is the first. -/
theorem stay (h : m.Queued k) (hu : c.desk.uri? = (k t).desk.uri?)
    (ht : ∀ uri, c.desk.turn? = some uri → (m.line uri).head? = some t) : m.Queued (Function.update k t c) := by
  refine ⟨h.nodup, ?_, ?_⟩
  · intro uri u
    rw [h.placed]
    by_cases e : u = t
    · rw [e, Function.update_self, hu]
    · rw [Function.update_of_ne e]
  · intro uri u hut
    by_cases e : u = t
    · rw [e, Function.update_self] at hut
      rw [e]
      exact ht uri hut
    · rw [Function.update_of_ne e] at hut
      exact h.first uri u hut

theorem stay_same (h : m.Queued k) (hc : c.desk = (k t).desk) : m.Queued (Function.update k t c) := by
  refine h.stay (by rw [hc]) ?_
  intro uri ht
  rw [hc] at ht
  exact h.first uri t ht

theorem lineUp (h : m.Queued k) (hk : (k t).desk = .nowhere) (hc : c.desk = .inLine uri) :
    Machine.Queued { m with lines := m.lines.insert uri (m.line uri ++ [t]) } (Function.update k t c) := by
  have hnot : ∀ v, t ∉ m.line v := by
    intro v
    rw [h.placed, hk]
    exact nofun
  refine ⟨?_, ?_, ?_⟩
  · intro v
    rw [line_insert]
    split
    · exact List.nodup_append_comm.mp (List.nodup_cons.mpr ⟨hnot uri, h.nodup uri⟩)
    · exact h.nodup v
  · intro v u
    rw [line_insert]
    by_cases e : u = t
    · rw [e, Function.update_self, hc]
      by_cases hv : v = uri
      · simp [hv, Desk.uri?]
      · simp [hv, hnot v, Desk.uri?, Ne.symm hv]
    · rw [Function.update_of_ne e, ← h.placed]
      by_cases hv : v = uri
      · simp [hv, e]
      · simp [hv]
  · intro v u hut
    have e : u ≠ t := by
      rintro rfl
      rw [Function.update_self, hc] at hut
      cases hut
    rw [Function.update_of_ne e] at hut
    have hhead := h.first v u hut
    rw [line_insert]
    split
    · rename_i hv
      rw [List.head?_append, ← hv, hhead]
      rfl
    · exact hhead

theorem go (h : m.Queued k) (hl : ∀ v, m'.line v = (m.line v).erase t) (hc : c.desk = .nowhere) :
    m'.Queued (Function.update k t c) := by
  refine ⟨?_, ?_, ?_⟩
  · intro v
    rw [hl]
    exact (h.nodup v).erase t
  · intro v u
    rw [hl, (h.nodup v).mem_erase_iff, h.placed]
    by_cases e : u = t
    · simp [e, hc, Desk.uri?]
    · simp [e]
  · intro v u hut
    have e : u ≠ t := by
      rintro rfl
      rw [Function.update_self, hc] at hut
      cases hut
    rw [Function.update_of_ne e] at hut
    obtain ⟨rest, hline⟩ := List.head?_eq_some_iff.mp (h.first v u hut)
    rw [hl, hline]
    simp [e]

theorem leave (h : m.Queued k) (hk : (k t).desk.uri? = some uri) (hc : c.desk = .nowhere) :
    Machine.Queued { m with lines := m.lines.insert uri ((m.line uri).erase t) } (Function.update k t c) := by
  refine h.go ?_ hc
  intro v
  rw [line_insert]
  split
  · rename_i hv
    rw [hv]
  · rename_i hv
    have hnot : t ∉ m.line v := by
      rw [h.placed, hk]
      exact fun e => hv (Option.some.inj e).symm
    rw [List.erase_of_not_mem hnot]

end Machine.Queued

/-! ## Documents -/

section

variable {m m' : Machine} {k : Conduct} {t : TaskId} {a : Action} {answer : a.Answer}

theorem desk_after (ha : a.isAtDesk = false) : (k.after a answer).desk = k.desk := by
  cases a with
  | lineUp uri | awaitTurn uri | document uri | commit uri after | leave uri => cases ha
  | _ => rfl

theorem documents_perform (hp : m.perform t a = some (answer, m')) (ha : a.isAtDesk = false) (uri : String) :
    m'.documents.get? uri = m.documents.get? uri := by
  cases a with
  | commit u after => cases ha
  | setSyncMode mode =>
    cases hp
    rfl
  | _ => rw [(spares_perform hp).documents (by simp [Action.reach])]

theorem lines_perform (hp : m.perform t a = some (answer, m')) (ha : a.isAtDesk = false) : m'.lines = m.lines := by
  cases a with
  | lineUp uri | leave uri => cases ha
  | _ => exact (spares_perform hp).lines (by simp [Action.reach])

end

structure Course.Tended (x : Course) (k : Conducts) : Prop where
  queued : x.machine.Queued k
  known : ∀ t uri document, (k t).desk = .working uri document → x.machine.documents.get? uri = document
  has : ∀ uri document, x.machine.documents.get? uri = some document → HasHad uri document.version x.history
  had : ∀ uri version, HasHad uri version x.history →
    ∃ document, x.machine.documents.get? uri = some document ∧ version ≤ document.version

namespace Course.Tended

variable {x : Course} {k : Conducts} {m : Machine} {t : TaskId} {a : Action} {answer : a.Answer} {c : Conduct}

theorem of_same (h : x.Tended k) {k' : Conducts} (hq : m.Queued k')
    (hm : ∀ uri, m.documents.get? uri = x.machine.documents.get? uri)
    (hk : ∀ t uri document, (k' t).desk = .working uri document → x.machine.documents.get? uri = document) :
    Tended ⟨m, x.history⟩ k' := by
  refine ⟨hq, ?_, ?_, ?_⟩
  · intro u uri document hu
    rw [hm]
    exact hk u uri document hu
  · intro uri document hd
    rw [hm] at hd
    exact h.has uri document hd
  · intro uri version hv
    rw [hm]
    exact h.had uri version hv

theorem concat (h : x.Tended k) {d : Deed} (hd : ∀ uri after, d.action ≠ .commit uri after) :
    Tended ⟨x.machine, x.history ++ [d]⟩ k := by
  refine ⟨h.queued, h.known, ?_, ?_⟩
  · intro uri document hu
    rw [hasHad_concat_of_ne (hd uri)]
    exact h.has uri document hu
  · intro uri version hv
    rw [hasHad_concat_of_ne (hd uri)] at hv
    exact h.had uri version hv

theorem known_update (h : x.Tended k)
    (hc : ∀ uri document, c.desk = .working uri document → x.machine.documents.get? uri = document) :
    ∀ u uri document, (Function.update k t c u).desk = .working uri document →
      x.machine.documents.get? uri = document := by
  intro u uri document hu
  by_cases e : u = t
  · rw [e, Function.update_self] at hu
    exact hc uri document hu
  · rw [Function.update_of_ne e] at hu
    exact h.known u uri document hu

/-- The one whose turn it is takes over a state of its document that follows the one that it knew. -/
theorem commit (h : x.Tended k) {uri : String} {before after : Option OpenDocument}
    (hk : (k t).desk = .working uri before) (hf : Follows before after) (hc : c.desk = .working uri after) :
    Tended ⟨{ x.machine with documents := x.machine.documents.commit uri after },
      x.history ++ [⟨t, .commit uri after, ()⟩]⟩ (Function.update k t c) := by
  have hhad : ∀ v version, v ≠ uri → (HasHad v version (x.history ++ [⟨t, .commit uri after, ()⟩]) ↔
      HasHad v version x.history) := by
    intro v version hv
    refine hasHad_concat_of_ne fun after' e => hv ?_
    cases e
    rfl
  refine ⟨?_, ?_, ?_, ?_⟩
  · refine Machine.Queued.of_lines (m := x.machine) (h.queued.stay ?_ ?_) rfl
    · rw [hc, hk]
      rfl
    · intro v hv
      rw [hc] at hv
      cases hv
      refine h.queued.first uri t ?_
      rw [hk]
      rfl
  · intro u v document hu
    by_cases e : u = t
    · rw [e, Function.update_self, hc] at hu
      cases hu
      exact (get?_commit _ uri uri after).trans (if_pos rfl)
    · rw [Function.update_of_ne e] at hu
      -- nobody else works on this document
      have hv : v ≠ uri := by
        rintro rfl
        have hut : (k u).desk.turn? = some v := by
          rw [hu]
          rfl
        have htt : (k t).desk.turn? = some v := by
          rw [hk]
          rfl
        exact e (h.queued.eq_of_turn? hut htt)
      rw [get?_commit, if_neg hv]
      exact h.known u v document hu
  · intro v document hv
    by_cases e : v = uri
    · rw [e, get?_commit, if_pos rfl] at hv
      exact since_concat.mpr (.inl ⟨document, by rw [e, hv], rfl⟩)
    · rw [get?_commit, if_neg e] at hv
      rw [hhad v _ e]
      exact h.has v document hv
  · intro v version hv
    by_cases e : v = uri
    · subst e
      rw [get?_commit, if_pos rfl]
      rcases since_concat.mp hv with ⟨document, ha, rfl⟩ | ⟨hs, hn⟩
      · cases ha
        exact ⟨document, rfl, Nat.le_refl _⟩
      · obtain ⟨document, hd, hle⟩ := h.had v version hs
        rw [h.known t v before hk] at hd
        subst hd
        cases after with
        | none => exact absurd rfl hn
        | some d => exact ⟨d, rfl, Nat.le_trans hle (Nat.le_of_lt hf)⟩
    · rw [hhad v version e] at hv
      rw [get?_commit, if_neg e]
      exact h.had v version hv

theorem perform (h : x.Tended k) (ha : (k t).Allows a) (hp : x.machine.perform t a = some (answer, m)) :
    Tended ⟨m, x.history ++ [⟨t, a, answer⟩]⟩ (Function.update k t ((k t).after a answer)) := by
  cases a with
  | commit uri after =>
    cases hp
    obtain ⟨before, hk, hf⟩ := ha
    exact h.commit hk hf rfl
  | lineUp uri =>
    cases hp
    refine (h.of_same (h.queued.lineUp ha rfl) (fun _ => rfl) (h.known_update ?_)).concat ?_
    · intro v document hv
      cases hv
    · intro v after e
      cases e
  | awaitTurn uri =>
    simp only [Machine.perform] at hp
    split at hp
    · rename_i hhead
      cases hp
      have hk : (k t).desk = .inLine uri := ha
      refine (h.of_same (h.queued.stay ?_ ?_) (fun _ => rfl) (h.known_update ?_)).concat ?_
      · rw [hk]
        rfl
      · intro v hv
        cases hv
        exact hhead
      · intro v document hv
        cases hv
      · intro v after e
        cases e
    · cases hp
  | document uri =>
    cases hp
    have hk : (k t).desk = .first uri := ha
    refine (h.of_same (h.queued.stay ?_ ?_) (fun _ => rfl) (h.known_update ?_)).concat ?_
    · rw [hk]
      rfl
    · intro v hv
      cases hv
      refine h.queued.first uri t ?_
      rw [hk]
      rfl
    · intro v document hv
      cases hv
      rfl
    · intro v after e
      cases e
  | leave uri =>
    cases hp
    obtain ⟨document, hk⟩ := ha
    refine (h.of_same (h.queued.leave ?_ rfl) (fun _ => rfl) (h.known_update ?_)).concat ?_
    · rw [hk]
      rfl
    · intro v document' hv
      cases hv
    · intro v after e
      cases e
  | _ =>
    have hk : ((k t).after _ answer).desk = (k t).desk := desk_after rfl
    refine (h.of_same ?_ (documents_perform hp rfl) (h.known_update ?_)).concat ?_
    · exact (h.queued.stay_same hk).of_lines (lines_perform hp rfl)
    · intro v document hv
      rw [hk] at hv
      exact h.known t v document hv
    · intro v after e
      cases e

theorem alike (h : x.Tended k) (hm : x.machine.Alike m) : Tended ⟨m, x.history⟩ k :=
  h.of_same (h.queued.of_lines hm.lines) (fun _ => by rw [hm.documents]) h.known

theorem turn (h : x.Tended k) {post : Option Nat} (hk : (k t).desk = .nowhere) :
    Tended x (Function.update k t (.free post)) := by
  refine h.of_same (h.queued.stay_same hk.symm) (fun _ => rfl) (h.known_update ?_)
  intro v document hv
  cases hv

theorem lose (h : x.Tended k) (hm : x.machine.Lost t m) : Tended ⟨m, x.history⟩ (Function.update k t (.free none)) := by
  refine h.of_same (h.queued.go ?_ rfl) (fun _ => by rw [hm.documents]) (h.known_update ?_)
  · intro v
    rw [(h.queued.nodup v).erase_eq_filter, Machine.line, hm.lines, Table.get?_map, Machine.line]
    cases x.machine.lines.get? v with
    | none => rfl
    | some line => simp only [Option.map_some, Option.getD_some, bne, ne_eq, decide_not, beq_eq_decide]
  · intro v document hv
    cases hv

end Course.Tended

theorem invariant_tended : Course.Invariant Course.Tended where
  alike _ _ _ h hm := h.alike hm
  act _ _ _ _ _ _ h ha hp := h.perform ha hp
  turn _ _ _ _ _ h hk _ := h.turn (by rw [hk]; rfl)
  lose _ _ _ _ h hm := h.lose hm

theorem tended_blank (o : ClientOptions) (files : FileTree) :
    Course.Tended ⟨.blank o files .starting, []⟩ .first := by
  have hfree : ∀ t, (Conducts.first t).desk = .nowhere := by
    intro t
    rw [Conducts.first_eq_free]
    rfl
  refine ⟨⟨fun _ => List.nodup_nil, ?_, ?_⟩, ?_, ?_, ?_⟩
  · intro uri t
    rw [hfree]
    exact iff_of_false List.not_mem_nil nofun
  · intro uri t ht
    rw [hfree] at ht
    cases ht
  · intro t uri document ht
    rw [hfree] at ht
    cases ht
  · intro uri document hd
    cases hd
  · intro uri version hv
    exact absurd hv not_since_nil

end Liaison
