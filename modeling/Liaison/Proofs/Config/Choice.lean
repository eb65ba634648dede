import Liaison.CommandLine.Printout
import Liaison.Proofs.Text.ByteOrder
import Mathlib.Data.List.Nodup
import Mathlib.Data.Set.Basic

/-!
# The choice of a server

The first of the servers by name that claim an extension has it, so a file goes to the first of those that handle it.
The order in which the servers are kept makes no difference to that, nor to any other choice.
-/

namespace Liaison

namespace Settings

variable {s : Settings} {p : Path} {name extension : String} {c : ServerConfig} {found : String × ServerConfig}

/-! ## Servers by name -/

theorem get?_eq_some_iff {servers : List (String × ServerConfig)} (h : (servers.map (·.1)).Nodup) :
    Table.get? name servers = some c ↔ (name, c) ∈ servers := by
  induction servers with
  | nil => simp
  | cons found servers ih =>
    obtain ⟨hfirst, hrest⟩ := List.nodup_cons.mp h
    rw [Table.get?, List.mem_cons]
    split
    · subst name
      have hnone : (found.1, c) ∉ servers := fun hc => hfirst (List.mem_map.mpr ⟨_, hc, rfl⟩)
      simp [hnone, Prod.ext_iff, eq_comm]
    · rename_i hne
      simp [ih hrest, Prod.ext_iff, hne]

theorem mem_inOrder : found ∈ s.inOrder ↔ found ∈ s.servers :=
  List.mem_mergeSort

theorem pairwise_inOrder (s : Settings) : s.inOrder.Pairwise fun a b => a.1 ≤ b.1 := by
  have hsorted : s.inOrder.Pairwise fun a b => decide (a.1 ≤ b.1) = true := by
    apply List.pairwise_mergeSort
    · simp only [decide_eq_true_eq]
      exact fun _ _ _ => le_trans
    · simp only [Bool.or_eq_true, decide_eq_true_eq]
      exact fun a b => le_total a.1 b.1
  simpa only [decide_eq_true_eq] using hsorted

theorem find?_inOrder_eq_some_iff {q : String × ServerConfig → Bool} :
    s.inOrder.find? q = some found ↔
      found ∈ s.servers ∧ q found = true ∧ ∀ other ∈ s.servers, q other = true → found.1 ≤ other.1 := by
  have hleast : ∀ first, s.inOrder.find? q = some first →
      first ∈ s.servers ∧ q first = true ∧ ∀ other ∈ s.servers, q other = true → first.1 ≤ other.1 := by
    intro first hfirst
    refine ⟨mem_inOrder.mp (List.mem_of_find?_eq_some hfirst), List.find?_some hfirst, fun other hother hq => ?_⟩
    obtain ⟨-, before, behind, hsplit, hbefore⟩ := List.find?_eq_some_iff_append.mp hfirst
    have hsorted := s.pairwise_inOrder
    rw [← mem_inOrder, hsplit, List.mem_append, List.mem_cons] at hother
    rw [hsplit, List.pairwise_append, List.pairwise_cons] at hsorted
    rcases hother with hother | rfl | hother
    · have hnot := hbefore other hother
      rw [hq] at hnot
      cases hnot
    · exact le_refl _
    · exact hsorted.2.1.1 other hother
  refine ⟨hleast found, fun ⟨hmem, hq, hall⟩ => ?_⟩
  cases hfind : s.inOrder.find? q with
  | none => exact absurd hq (List.find?_eq_none.mp hfind found (mem_inOrder.mpr hmem))
  | some first =>
    obtain ⟨hfirst, hqfirst, hleastFirst⟩ := hleast first hfind
    have hname : first.1 = found.1 := le_antisymm (hleastFirst found hmem hq) (hall first hfirst hqfirst)
    rw [List.inj_on_of_nodup_map s.nodup hfirst hmem hname]

/-! ## Extensions -/

theorem get?_foldl_claims (claims : List (String × String)) (t : Table String String) :
    (claims.foldl (fun t (extension, name) => if (t.get? extension).isSome then t else t.insert extension name) t).get?
      extension = (t.get? extension).or ((claims.find? (·.1 = extension)).map (·.2)) := by
  induction claims generalizing t with
  | nil => simp
  | cons claim claims ih =>
    obtain ⟨e, name⟩ := claim
    rw [List.foldl_cons, ih, List.find?_cons]
    by_cases he : e = extension
    · subst he
      cases ht : t.get? e <;> simp [ht]
    · cases ht : t.get? e <;> simp [he, ht, Ne.symm he]

theorem find?_map_claims (claimed : List String) : ((claimed.map (·, name)).find? (·.1 = extension)).map (·.2) =
    if claimed.contains extension then some name else none := by
  induction claimed with
  | nil => rfl
  | cons e claimed ih =>
    by_cases he : e = extension
    · simp [he]
    · simpa [he, Ne.symm he] using ih

theorem get?_extensions : s.extensions.get? extension =
    (s.inOrder.find? (·.2.fileExtensions.contains extension)).map (·.1) := by
  rw [extensions, get?_foldl_claims, claimedExtensions, Table.get?_nil, Option.none_or]
  induction s.inOrder with
  | nil => rfl
  | cons found servers ih =>
    rw [List.flatMap_cons, List.find?_append, Option.map_or, ih, find?_map_claims, List.find?_cons]
    cases found.2.fileExtensions.contains extension <;> rfl

theorem serverFor?_eq : s.serverFor? p = s.inOrder.find? (·.2.handles p) := by
  unfold serverFor? ServerConfig.handles
  cases (Path.extension? p).bind Utf8.toString? with
  | none => exact (List.find?_eq_none.mpr (by simp)).symm
  | some extension =>
    simp only [get?_extensions, Option.bind_eq_bind, Option.bind_some]
    cases hfind : s.inOrder.find? (·.2.fileExtensions.contains extension) with
    | none => rfl
    | some found =>
      have hget := (get?_eq_some_iff s.nodup).mpr (mem_inOrder.mp (List.mem_of_find?_eq_some hfind))
      simp [hget]

/-- A file goes to the first by name of the servers that handle it, and to none only if no server does. -/
theorem serverFor?_eq_some_iff : s.serverFor? p = some found ↔
    found ∈ s.servers ∧ found.2.handles p = true ∧
      ∀ other ∈ s.servers, other.2.handles p = true → found.1 ≤ other.1 := by
  rw [serverFor?_eq]
  exact find?_inOrder_eq_some_iff

theorem serverFor?_eq_none_iff : s.serverFor? p = none ↔ ∀ other ∈ s.servers, other.2.handles p = false := by
  simp [serverFor?_eq, mem_inOrder]

/-! ## Choices -/

/-- What a choice among servers comes to: the one asked for, else the first by the bytes of its name that handles the
file, else the only one. -/
inductive Chooses (servers : Set (String × ServerConfig)) :
    Option String → Option Path → Except Failure (String × ServerConfig) → Prop
  | requested {name : String} {file : Option Path} {c : ServerConfig} (h : (name, c) ∈ servers) :
    Chooses servers (some name) file (.ok (name, c))
  | unknown {name : String} {file : Option Path} (h : ∀ c, (name, c) ∉ servers) :
    Chooses servers (some name) file (.error ⟨"no server named '" ++ name ++ "' in config", []⟩)
  | handling {p : Path} {found : String × ServerConfig} (h : found ∈ servers) (hp : found.2.handles p = true)
    (hleast : ∀ other ∈ servers, other.2.handles p = true → Utf8.ofString found.1 ≤ Utf8.ofString other.1) :
    Chooses servers none (some p) (.ok found)
  | unhandled {p : Path} (h : ∀ other ∈ servers, other.2.handles p = false) :
    Chooses servers none (some p) (.error ⟨"no server configured for " ++ Path.display p, []⟩)
  | only {found : String × ServerConfig} (h : ∀ other, other ∈ servers ↔ other = found) :
    Chooses servers none none (.ok found)
  | several {found other : String × ServerConfig} (h : found ∈ servers) (h' : other ∈ servers) (hne : found ≠ other) :
    Chooses servers none none (.error ⟨"several servers configured; choose one with --server", []⟩)
  | none (h : ∀ found, found ∉ servers) :
    Chooses servers none none (.error ⟨"no language servers configured", []⟩)

theorem chooses_select (s : Settings) (server : Option String) (file : Option Path) :
    Chooses {x | x ∈ s.servers} server file (s.select server file) := by
  unfold select
  split
  · rename_i name _
    split
    · rename_i c hc
      exact .requested ((get?_eq_some_iff s.nodup).mp hc)
    · rename_i hnone
      refine .unknown fun c hc => ?_
      rw [(get?_eq_some_iff s.nodup).mpr hc] at hnone
      cases hnone
  · rename_i p
    split
    · rename_i found hfound
      obtain ⟨hmem, hp, hleast⟩ := serverFor?_eq_some_iff.mp hfound
      exact .handling hmem hp fun other hother hq => Utf8.ofString_le_iff.mpr (hleast other hother hq)
    · rename_i hnone
      exact .unhandled (serverFor?_eq_none_iff.mp hnone)
  · split
    · rename_i found hservers
      exact .only fun other => by simp [hservers]
    · rename_i hservers
      exact .none fun found => by simp [hservers]
    · rename_i servers hnotOnly hnotNone
      rcases hservers : s.servers with _ | ⟨found, _ | ⟨other, rest⟩⟩
      · exact absurd hservers hnotNone
      · exact absurd hservers (hnotOnly found)
      · have hne : found ≠ other := by
          rintro rfl
          simpa [hservers] using s.nodup
        exact .several List.mem_cons_self (List.mem_cons_of_mem _ List.mem_cons_self) hne

theorem select_of_chooses {server : Option String} {file : Option Path}
    {r : Except Failure (String × ServerConfig)} (hr : Chooses {x | x ∈ s.servers} server file r) :
    s.select server file = r := by
  cases hr with
  | @requested name _ c hc => rw [select, (get?_eq_some_iff s.nodup).mpr hc]
  | @unknown name _ hnone =>
    have hget : Table.get? name s.servers = none :=
      Option.eq_none_iff_forall_ne_some.mpr fun c hc => hnone c ((get?_eq_some_iff s.nodup).mp hc)
    rw [select, hget]
    rfl
  | handling hmem hp hleast =>
    have hfound := serverFor?_eq_some_iff.mpr
      ⟨hmem, hp, fun other hother hq => Utf8.ofString_le_iff.mp (hleast other hother hq)⟩
    rw [select, hfound]
  | unhandled hnone => rw [select, serverFor?_eq_none_iff.mpr hnone]
  | @only found honly =>
    have hperm : s.servers.Perm [found] := by
      rw [List.perm_ext_iff_of_nodup s.nodup.of_map (List.nodup_singleton found)]
      exact fun other => by simpa using honly other
    have hservers : s.servers = [found] := List.perm_singleton.mp hperm
    rw [select, hservers]
  | several hfound hother hne =>
    rcases hservers : s.servers with _ | ⟨only, _ | ⟨_, _⟩⟩
    · simp [hservers] at hfound
    · simp only [Set.mem_ofPred_eq, hservers, List.mem_singleton] at hfound hother
      exact absurd (hfound.trans hother.symm) hne
    · rw [select, hservers]
  | none hnone =>
    have hservers : s.servers = [] := List.eq_nil_iff_forall_not_mem.mpr hnone
    rw [select, hservers]

theorem select_eq_iff {server : Option String} {file : Option Path}
    {r : Except Failure (String × ServerConfig)} :
    s.select server file = r ↔ Chooses {x | x ∈ s.servers} server file r := by
  refine ⟨?_, select_of_chooses⟩
  rintro rfl
  exact chooses_select s server file

/-- The server for a file is the first by the bytes of its name that handles it. What is chosen is known from which
servers there are, so it is the same in whatever order they are kept. -/
theorem select_determined :
    (∀ (s : Settings) p found, s.serverFor? p = some found ↔ found ∈ s.servers ∧ found.2.handles p = true ∧
      ∀ other ∈ s.servers, other.2.handles p = true → Utf8.ofString found.1 ≤ Utf8.ofString other.1) ∧
    (∀ (s : Settings) p, s.serverFor? p = none ↔ ∀ other ∈ s.servers, other.2.handles p = false) ∧
    (∀ (s : Settings) server file r, s.select server file = r ↔ Chooses {x | x ∈ s.servers} server file r) ∧
    ∀ s s' : Settings, s'.servers.Perm s.servers →
      (∀ p, s'.serverFor? p = s.serverFor? p) ∧ ∀ server file, s'.select server file = s.select server file := by
  refine ⟨fun s p found => ?_, fun s p => serverFor?_eq_none_iff, fun s server file r => select_eq_iff,
    fun s s' hperm => ⟨fun p => Option.ext fun found => ?_, fun server file => ?_⟩⟩
  · simp only [Utf8.ofString_le_iff]
    exact serverFor?_eq_some_iff
  · simp only [serverFor?_eq_some_iff, hperm.mem_iff]
  · rw [select_eq_iff]
    simp only [hperm.mem_iff]
    exact chooses_select s server file

def serverOf (extensions : List String) : ServerConfig :=
  ⟨"serve", [], none, [], "text", extensions, [], none, none, 30, 60⟩

/-- Of the servers for Python, the one that is listed last goes first by its name. -/
def threeServers : Settings :=
  ⟨[("ruby", serverOf ["rb", "py"]), ("python", serverOf ["py"]), ("Pyright", serverOf ["pyi", "py", "py"])],
    by decide⟩

theorem select_determined_threeServers :
    let script := Path.ofString "/w/a.py"
    let reversed : Settings := ⟨threeServers.servers.reverse, by decide⟩
    threeServers.serverFor? script = some ("Pyright", serverOf ["pyi", "py", "py"]) ∧
      reversed.select none (some script) = .ok ("Pyright", serverOf ["pyi", "py", "py"]) ∧
      reversed.select (some "ruby") (some script) = .ok ("ruby", serverOf ["rb", "py"]) ∧
      threeServers.serverFor? (Path.ofString "/w/a.rs") = none := by
  intro script reversed
  obtain ⟨hsome, hnone, hselect, hsame⟩ := select_determined
  have hleast : ∀ other ∈ threeServers.servers, other.2.handles script = true →
      Utf8.ofString "Pyright" ≤ Utf8.ofString other.1 := by
    decide +kernel
  have hhandles : (serverOf ["pyi", "py", "py"]).handles script = true := by decide +kernel
  have hreversed := (hsame threeServers reversed (List.reverse_perm _)).2
  refine ⟨(hsome _ _ _).mpr ⟨by simp [threeServers], hhandles, hleast⟩, ?_, ?_, (hnone _ _).mpr (by decide +kernel)⟩
  · rw [hreversed, hselect]
    exact .handling (by simp [threeServers]) hhandles hleast
  · rw [hreversed, hselect]
    exact .requested (by simp [threeServers])

end Settings

end Liaison
