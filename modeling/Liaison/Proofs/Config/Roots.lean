import Liaison.Config.Server
import Liaison.Proofs.File.Path
import Mathlib.Data.List.Infix

/-!
# The nearest root

A search for a root goes up from a directory until there is no path above, and stops at the first directory that holds
one of the markers.
-/

namespace Liaison

/-! ## Directories that hold something -/

namespace FileTree

variable {t : FileTree} {place : List Bytes} {d m : Path}

theorem walk_append (names more : List Bytes) :
    t.walk place (names ++ more) = (t.walk place names).bind fun place => t.walk place more := by
  induction names generalizing place with
  | nil => rfl
  | cons name names ih =>
    rw [List.cons_append, walk, walk]
    repeat' split
    all_goals first | exact ih | rfl

theorem exists_directory_of_walk {names more target : List Bytes} (hmore : more ≠ [])
    (h : t.walk place (names ++ more) = .ok target) :
    ∃ between, t.walk place names = .ok between ∧ t.entry? between = some .directory := by
  rw [walk_append] at h
  cases hbetween : t.walk place names with
  | error e =>
    rw [hbetween] at h
    cases h
  | ok between =>
    rw [hbetween] at h
    refine ⟨between, rfl, ?_⟩
    cases more with
    | nil => exact absurd rfl hmore
    | cons name more =>
      rw [Except.bind, walk] at h
      split at h
      · assumption
      · cases h
      · cases h

theorem walk_empty_name (h : t.entry? place = some .directory) : t.walk place [[]] = .ok place := by
  rw [walk, h]
  rfl

theorem place_of_ne_nil (hd : d ≠ []) :
    t.place d = t.walk (if Path.isAbsolute d then [] else t.working) (Path.pieces d) :=
  if_neg (by simpa using hd)

theorem exists_place_of_contains (h : t.contains d = true) : ∃ target, t.place d = .ok target := by
  unfold contains find at h
  cases hplace : t.place d with
  | error e =>
    rw [hplace] at h
    cases h
  | ok target => exact ⟨target, rfl⟩

theorem isDirectory_of_place (h : t.place d = .ok place) (hplace : t.entry? place = some .directory) :
    t.isDirectory d = true := by
  have hfind : t.find d = .ok .directory := by
    rw [find, h]
    simp only [bind, Except.bind, hplace]
    rfl
  rw [isDirectory, hfind]

theorem isDirectory_of_contains_join (hd : d ≠ []) (hm : Path.isAbsolute m = false)
    (h : t.contains (Path.join d m) = true) : t.isDirectory d = true := by
  obtain ⟨target, htarget⟩ := exists_place_of_contains h
  have hstart : ∀ more, Path.isAbsolute (d ++ more) = Path.isAbsolute d := by
    cases d with
    | nil => exact absurd rfl hd
    | cons => exact fun _ => rfl
  rw [Path.join, if_neg (by simp [hm, hd])] at htarget
  split at htarget
  · rename_i hlast
    obtain ⟨trunk, htrunk⟩ := List.getLast?_eq_some_iff.mp hlast
    have hpieces : Path.pieces d = Path.pieces trunk ++ [[]] := by
      rw [htrunk, Path.pieces_append_slash]
      rfl
    have hmore : Path.pieces (d ++ m) = Path.pieces trunk ++ Path.pieces m := by
      rw [htrunk, List.append_assoc, List.singleton_append, Path.pieces_append_slash]
    rw [place_of_ne_nil (by simp [hd]), hstart, hmore] at htarget
    obtain ⟨between, hbetween, hdirectory⟩ := exists_directory_of_walk (Path.pieces_ne_nil m) htarget
    refine isDirectory_of_place ?_ hdirectory
    rw [place_of_ne_nil hd, hpieces, walk_append, hbetween]
    exact walk_empty_name hdirectory
  · rw [place_of_ne_nil (by simp), hstart, Path.pieces_append_slash] at htarget
    obtain ⟨between, hbetween, hdirectory⟩ := exists_directory_of_walk (Path.pieces_ne_nil m) htarget
    exact isDirectory_of_place ((place_of_ne_nil hd).trans hbetween) hdirectory

end FileTree

namespace ServerConfig

/-- The paths from one upwards, if there is one: each is followed by the path above it, and the last has none. -/
inductive Rises : Option Path → List Path → Prop
  | done : Rises none []
  | next {p : Path} {chain : List Path} (h : Rises (Path.parent? p) chain) : Rises (some p) (p :: chain)

def Holds (markers : List Path) (view : FileView) (directory : Path) : Prop :=
  ∃ marker ∈ markers, view.contains (Path.join directory marker) = true

instance (markers : List Path) (view : FileView) (directory : Path) : Decidable (Holds markers view directory) :=
  inferInstanceAs (Decidable (∃ marker ∈ markers, view.contains (Path.join directory marker) = true))

variable {markers : List Path} {view : FileView} {first : Option Path} {start p root : Path} {chain chain' : List Path}

theorem isRoot_iff : isRoot markers view p = true ↔ Holds markers view p := by
  simp [isRoot, Holds]

/-! ## The way upwards -/

theorem exists_rises (first : Option Path) : ∃ chain, Rises first chain := by
  cases first with
  | none => exact ⟨[], .done⟩
  | some p =>
    obtain ⟨chain, hchain⟩ := exists_rises (Path.parent? p)
    exact ⟨p :: chain, .next hchain⟩
termination_by first.elim 0 (·.length + 1)
decreasing_by
  cases hp : Path.parent? p with
  | none => exact Nat.succ_pos _
  | some q => exact Nat.succ_lt_succ (Path.length_lt_of_parent? hp)

theorem Rises.unique (h : Rises first chain) (h' : Rises first chain') : chain' = chain := by
  induction h generalizing chain' with
  | done =>
    cases h'
    rfl
  | next _ ih =>
    cases h' with
    | next h' => rw [ih h']

/-- On the way upwards one name after the other is dropped, down to none. -/
theorem Rises.names_eq (h : Rises first chain) : ∀ p ∈ first, chain.map Path.names = (Path.names p).inits.reverse := by
  induction h with
  | done => simp
  | @next p chain h ih =>
    rintro _ ⟨⟩
    cases hp : Path.parent? p with
    | none =>
      rw [hp] at h
      cases h
      simp [Path.parent?_eq_none_iff.mp hp]
    | some q =>
      have hne : Path.names p ≠ [] := fun hnone => by simp [Path.parent?_eq_none_iff.mpr hnone] at hp
      obtain ⟨names, last, hnames⟩ := (List.eq_nil_or_concat' (Path.names p)).resolve_left hne
      rw [List.map_cons, ih q hp, Path.names_parent? hp, hnames, List.dropLast_concat, List.inits_append]
      simp

theorem Rises.isAbsolute_eq (h : Rises first chain) :
    ∀ p ∈ first, ∀ d ∈ chain, Path.isAbsolute d = Path.isAbsolute p := by
  induction h with
  | done => simp
  | @next p chain h ih =>
    rintro _ ⟨⟩
    refine List.forall_mem_cons.mpr ⟨rfl, fun d hd => ?_⟩
    cases hp : Path.parent? p with
    | none =>
      rw [hp] at h
      cases h
      cases hd
    | some q => rw [ih q hp d hd, Path.isAbsolute_parent? hp]

/-! ## The search -/

theorem rootAbove?_eq_ite (p : Path) : rootAbove? markers view p =
    if isRoot markers view p then some p else (Path.parent? p).bind (rootAbove? markers view) := by
  rw [rootAbove?]
  split
  · rfl
  · split <;> simp_all

theorem bind_rootAbove?_eq_find? (h : Rises first chain) :
    first.bind (rootAbove? markers view) = chain.find? (isRoot markers view) := by
  induction h with
  | done => rfl
  | @next p _ _ ih =>
    rw [Option.bind_some, rootAbove?_eq_ite, ih, List.find?_cons]
    cases isRoot markers view p <;> rfl

theorem find?_isRoot_eq_some_iff : chain.find? (isRoot markers view) = some root ↔
    ∃ below above, chain = below ++ root :: above ∧ Holds markers view root ∧ ∀ d ∈ below, ¬ Holds markers view d := by
  simp only [List.find?_eq_some_iff_append, ← isRoot_iff]
  constructor
  · rintro ⟨hroot, below, above, hchain, hbelow⟩
    exact ⟨below, above, hchain, hroot, fun d hd => by simpa using hbelow d hd⟩
  · rintro ⟨below, above, hchain, hroot, hbelow⟩
    exact ⟨hroot, below, above, hchain, fun d hd => by simpa using hbelow d hd⟩

theorem find?_isRoot_eq_none_iff :
    chain.find? (isRoot markers view) = none ↔ ∀ d ∈ chain, ¬ Holds markers view d := by
  simp only [List.find?_eq_none, isRoot_iff]

/-- A search comes to an end, and finds the first of the paths upwards that holds a marker: from its start, if that is a
directory, and else from the path above. These paths have ever fewer of the same names. If no marker is an absolute
path, what is found in a tree of files is a directory, or the empty path, which stands for the working directory. -/
theorem findRoot?_nearest :
    (∀ markers view start, ∃ chain,
      Rises (if view.isDirectory start then some start else Path.parent? start) chain ∧
      (∀ chain', Rises (if view.isDirectory start then some start else Path.parent? start) chain' → chain' = chain) ∧
      (∀ root, rootFrom? markers view start = some root ↔ ∃ below above,
        chain = below ++ root :: above ∧ Holds markers view root ∧ ∀ d ∈ below, ¬ Holds markers view d) ∧
      (rootFrom? markers view start = none ↔ ∀ d ∈ chain, ¬ Holds markers view d)) ∧
    (∀ p chain, Rises (some p) chain →
      chain.map Path.names = (Path.names p).inits.reverse ∧ ∀ d ∈ chain, Path.isAbsolute d = Path.isAbsolute p) ∧
    ∀ markers (tree : FileTree) start root, findRoot? markers tree start = some root →
      (∀ marker ∈ markers, Path.isAbsolute marker = false) → root = [] ∨ tree.isDirectory root = true := by
  have hfind : ∀ {markers view start chain},
      Rises (if view.isDirectory start then some start else Path.parent? start) chain →
      rootFrom? markers view start = chain.find? (isRoot markers view) := fun h => bind_rootAbove?_eq_find? h
  refine ⟨fun markers view start => ?_, fun p chain h => ⟨h.names_eq p rfl, h.isAbsolute_eq p rfl⟩, ?_⟩
  · obtain ⟨chain, hchain⟩ := exists_rises (if view.isDirectory start then some start else Path.parent? start)
    refine ⟨chain, hchain, fun _ => hchain.unique, fun root => ?_, ?_⟩
    · rw [hfind hchain, find?_isRoot_eq_some_iff]
    · rw [hfind hchain, find?_isRoot_eq_none_iff]
  · intro markers tree start root hroot hmarkers
    obtain ⟨chain, hchain⟩ := exists_rises (if tree.view.isDirectory start then some start else Path.parent? start)
    rw [findRoot?, hfind hchain] at hroot
    obtain ⟨_, _, -, ⟨marker, hmarker, hholds⟩, -⟩ := find?_isRoot_eq_some_iff.mp hroot
    by_cases hempty : root = []
    · exact .inl hempty
    · exact .inr (FileTree.isDirectory_of_contains_join hempty (hmarkers marker hmarker) hholds)

/-- Two packages, one within the other, seen from the inner one. -/
def nestedPackages : FileTree :=
  let tree : FileTree := ⟨[], []⟩
  let name := Utf8.ofString
  { (((tree.write [name "w", name "Cargo.toml"] []).write [name "w", name "in", name "Cargo.toml"] []).write
      [name "w", name "in", name "src", name "a.rs"] []) with working := [name "w", name "in"] }

theorem rises_nestedPackages : Rises (Path.parent? (Path.ofString "/w/in/src/a.rs"))
    [Path.ofString "/w/in/src", Path.ofString "/w/in", Path.ofString "/w", Path.ofString "/"] := by
  have hstep : ∀ {p q chain}, Path.parent? p = some q → Rises (Path.parent? q) chain →
      Rises (Path.parent? p) (q :: chain) := fun hp hq => hp ▸ .next hq
  have htop : Path.parent? (Path.ofString "/") = none := by decide +kernel
  exact hstep (by decide +kernel) (hstep (by decide +kernel) (hstep (by decide +kernel)
    (hstep (by decide +kernel) (htop ▸ .done))))

theorem findRoot?_nearest_nested :
    let markers := [Path.ofString "go.mod", Path.ofString "Cargo.toml"]
    findRoot? markers nestedPackages (Path.ofString "/w/in/src/a.rs") = some (Path.ofString "/w/in") ∧
      nestedPackages.isDirectory (Path.ofString "/w/in") = true ∧
      findRoot? [Path.ofString "go.mod"] nestedPackages (Path.ofString "/w/in/src/a.rs") = none := by
  intro markers
  obtain ⟨hsearch, -, hdirectory⟩ := findRoot?_nearest
  have hfile : nestedPackages.view.isDirectory (Path.ofString "/w/in/src/a.rs") = false := by decide +kernel
  have hroot : findRoot? markers nestedPackages (Path.ofString "/w/in/src/a.rs") = some (Path.ofString "/w/in") := by
    obtain ⟨chain, -, hchain, hsome, -⟩ := hsearch markers nestedPackages.view (Path.ofString "/w/in/src/a.rs")
    rw [hfile] at hchain
    exact (hsome _).mpr ⟨[_], _, (hchain _ rises_nestedPackages).symm, by decide +kernel, by decide +kernel⟩
  refine ⟨hroot, (hdirectory _ _ _ _ hroot (by decide +kernel)).resolve_left (by decide +kernel), ?_⟩
  obtain ⟨chain, -, hchain, -, hnone⟩ :=
    hsearch [Path.ofString "go.mod"] nestedPackages.view (Path.ofString "/w/in/src/a.rs")
  rw [hfile] at hchain
  rw [← hchain _ rises_nestedPackages] at hnone
  exact hnone.mpr (by decide +kernel)

end ServerConfig

end Liaison
