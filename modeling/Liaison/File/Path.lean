import Liaison.Text.Utf8

/-!
# Paths

A path is a string of bytes in which slashes separate names. What a path means is read off its text
alone; nothing here looks at a file.
-/

namespace Liaison

abbrev Path := Bytes

namespace Path

def slash : UInt8 := 0x2F

def dot : Bytes := [0x2E]

def dotDot : Bytes := [0x2E, 0x2E]

def ofString (s : String) : Path :=
  Utf8.ofString s

def display (p : Path) : String :=
  Utf8.toStringLossy p

def isAbsolute (p : Path) : Bool :=
  p.head? = some slash

/-! ## Names -/

def pieces : Bytes → List Bytes
  | [] => [[]]
  | b :: rest =>
    match pieces rest with
    | [] => [[b]]
    | first :: more => if b = slash then [] :: first :: more else (b :: first) :: more

def ofPieces : List Bytes → Bytes
  | [] => []
  | [p] => p
  | p :: q :: rest => p ++ slash :: ofPieces (q :: rest)

def isSilent (piece : Bytes) : Bool :=
  piece.isEmpty || piece = dot

/-- The names of the path in order, without the root. A leading dot of a relative path is kept. -/
def names (p : Path) : List Bytes :=
  match pieces p with
  | [] => []
  | first :: rest => (if first.isEmpty then [] else [first]) ++ rest.filter (!isSilent ·)

/-- Drops the pieces at the end that name nothing. The first piece stays. -/
def trimPieces : List Bytes → List Bytes
  | [] => []
  | first :: rest => first :: (rest.reverse.dropWhile isSilent).reverse

/-- The path above: without the last name. The root and the empty path have none. -/
def parent? (p : Path) : Option Path :=
  if (names p).isEmpty then none
  else
    match trimPieces (trimPieces (pieces p)).dropLast with
    | [[]] => if isAbsolute p then some [slash] else some []
    | kept => some (ofPieces kept)

theorem pieces_ne_nil (p : Path) : pieces p ≠ [] := by
  fun_cases pieces p <;> simp_all

theorem ofPieces_cons_of_ne_nil {piece : Bytes} {rest : List Bytes} (h : rest ≠ []) :
    ofPieces (piece :: rest) = piece ++ slash :: ofPieces rest := by
  cases rest with
  | nil => exact absurd rfl h
  | cons => rfl

theorem ofPieces_append {ps qs : List Bytes} (hp : ps ≠ []) (hq : qs ≠ []) :
    ofPieces (ps ++ qs) = ofPieces ps ++ slash :: ofPieces qs := by
  induction ps with
  | nil => exact absurd rfl hp
  | cons piece ps ih =>
    by_cases hps : ps = []
    · subst hps
      rw [List.singleton_append, ofPieces_cons_of_ne_nil hq]
      rfl
    · rw [List.cons_append, ofPieces_cons_of_ne_nil (by simp [hps]), ofPieces_cons_of_ne_nil hps, ih hps]
      simp

theorem ofPieces_pieces (p : Path) : ofPieces (pieces p) = p := by
  fun_induction pieces p with
  | case1 => rfl
  | case2 b rest hnone => exact absurd hnone (pieces_ne_nil rest)
  | case3 rest first more hpieces ih =>
    rw [hpieces] at ih
    rw [ofPieces, ih]
    rfl
  | case4 b rest first more hpieces hb ih =>
    rw [hpieces] at ih
    cases more <;> simp_all [ofPieces]

theorem trimPieces_isPrefix (ps : List Bytes) : trimPieces ps <+: ps := by
  cases ps with
  | nil => exact List.prefix_rfl
  | cons first rest =>
    rw [trimPieces, List.prefix_cons_inj, ← List.reverse_suffix, List.reverse_reverse]
    exact List.dropWhile_suffix ..

theorem trimPieces_ne_nil {ps : List Bytes} (h : ps ≠ []) : trimPieces ps ≠ [] := by
  cases ps with
  | nil => exact absurd rfl h
  | cons => simp [trimPieces]

/-- What is kept of the pieces for the path above is less than all of them. -/
theorem exists_append_eq_pieces (p : Path) :
    ∃ more, more ≠ [] ∧ trimPieces (trimPieces (pieces p)).dropLast ++ more = pieces p := by
  have hlast := List.dropLast_prefix (trimPieces (pieces p))
  obtain ⟨more, hmore⟩ := (trimPieces_isPrefix _).trans (hlast.trans (trimPieces_isPrefix (pieces p)))
  refine ⟨more, ?_, hmore⟩
  rintro rfl
  have hle := (trimPieces_isPrefix (trimPieces (pieces p)).dropLast).length_le
  have hpos := List.length_pos_iff.mpr (trimPieces_ne_nil (pieces_ne_nil p))
  have htrim := (trimPieces_isPrefix (pieces p)).length_le
  rw [List.append_nil] at hmore
  rw [hmore, List.length_dropLast] at hle
  omega

/-- The path above is shorter, so that a way upwards comes to an end. -/
theorem length_lt_of_parent? {p q : Path} (h : parent? p = some q) : q.length < p.length := by
  obtain ⟨more, hmore, hpieces⟩ := exists_append_eq_pieces p
  have hp : names p ≠ [] := by
    intro hp
    simp [parent?, hp] at h
  have hofPieces := ofPieces_pieces p
  rw [parent?, if_neg (by simpa using hp)] at h
  rw [← hpieces] at hofPieces
  split at h
  · rename_i hkept
    rw [hkept, ofPieces_append (by simp) hmore] at hofPieces
    subst hofPieces
    have hrest : ofPieces more ≠ [] := by
      intro hnone
      simp [hnone, ofPieces, names, pieces, isSilent] at hp
    split at h <;> cases h <;> simp [ofPieces, List.length_pos_iff.mpr hrest]
  · cases h
    by_cases hkept : trimPieces (trimPieces (pieces p)).dropLast = []
    · rw [hkept, ofPieces, List.length_nil, List.length_pos_iff]
      rintro rfl
      exact hp rfl
    · rw [ofPieces_append hkept hmore] at hofPieces
      have hlength := congrArg List.length hofPieces
      simp only [List.length_append, List.length_cons] at hlength
      omega

/-- The path taken from another one; an absolute path stays as it is. -/
def join (base p : Path) : Path :=
  if isAbsolute p ∨ base.isEmpty then p
  else if base.getLast? = some slash then base ++ p
  else base ++ slash :: p

def fileName? (p : Path) : Option Bytes :=
  match (names p).getLast? with
  | some name => if name = dotDot ∨ name = dot then none else some name
  | none => none

def extension? (p : Path) : Option Bytes :=
  match fileName? p with
  | none => none
  | some name =>
    match name.reverse.dropWhile (· ≠ 0x2E) with
    | _ :: _ :: _ => some (name.reverse.takeWhile (· ≠ 0x2E)).reverse
    | _ => none

/-! ## Absolute paths -/

def plainNames (p : Path) : List Bytes :=
  match names p with
  | name :: rest => if name = dot then rest else name :: rest
  | [] => []

/-- The path taken from a directory, without the pieces that name nothing. Names that lead upwards
and a slash at the end stay, and so do exactly two slashes at the start. -/
def absolute (directory p : Path) : Path :=
  let start : Path :=
    if !isAbsolute p then directory
    else if p.take 2 = [slash, slash] ∧ (p.drop 2).head? ≠ some slash then [slash, slash]
    else [slash]
  let whole := (plainNames p).foldl join start
  if p.getLast? = some slash then join whole [] else whole

end Path

end Liaison
