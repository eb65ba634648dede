import Liaison.File.Path
import Mathlib.Data.List.DropRight

/-!
# Names and pieces of paths

Pieces without slashes come back as they were put together, so what a path names can be read off its pieces. The path
above has the same names but the last.
-/

namespace Liaison

namespace Path

variable {p q : Path} {piece first : Bytes} {ps rest : List Bytes} {b : UInt8}

/-! ## Pieces -/

theorem pieces_slash (p : Path) : pieces (slash :: p) = [] :: pieces p := by
  rw [pieces]
  cases hp : pieces p with
  | nil => exact absurd hp (pieces_ne_nil p)
  | cons => exact if_pos rfl

theorem pieces_of_ne (hb : b ≠ slash) (hp : pieces p = first :: rest) : pieces (b :: p) = (b :: first) :: rest := by
  rw [pieces, hp]
  exact if_neg hb

theorem pieces_append_slash (p q : Path) : pieces (p ++ slash :: q) = pieces p ++ pieces q := by
  induction p with
  | nil => exact pieces_slash q
  | cons b p ih =>
    cases hp : pieces p with
    | nil => exact absurd hp (pieces_ne_nil p)
    | cons first rest =>
      rw [hp] at ih
      by_cases hb : b = slash
      · rw [hb, List.cons_append, pieces_slash, pieces_slash, ih, hp]
        rfl
      · rw [List.cons_append, pieces_of_ne hb ih, pieces_of_ne hb hp]
        rfl

theorem pieces_of_not_mem (h : slash ∉ piece) : pieces piece = [piece] := by
  induction piece with
  | nil => rfl
  | cons b piece ih =>
    rw [List.mem_cons, not_or] at h
    exact pieces_of_ne (Ne.symm h.1) (ih h.2)

theorem pieces_ofPieces (hne : ps ≠ []) (h : ∀ piece ∈ ps, slash ∉ piece) : pieces (ofPieces ps) = ps := by
  induction ps with
  | nil => exact absurd rfl hne
  | cons piece ps ih =>
    obtain ⟨hpiece, hps⟩ := List.forall_mem_cons.mp h
    by_cases hnil : ps = []
    · subst hnil
      exact pieces_of_not_mem hpiece
    · rw [ofPieces_cons_of_ne_nil hnil, pieces_append_slash, pieces_of_not_mem hpiece, ih hnil hps]
      rfl

theorem ofPieces_cons (first : Bytes) (rest : List Bytes) :
    ofPieces (first :: rest) = first ++ rest.flatMap (slash :: ·) := by
  induction rest generalizing first with
  | nil => exact (List.append_nil first).symm
  | cons piece rest ih =>
    rw [ofPieces, ih, List.flatMap_cons]
    rfl

theorem slash_not_mem (p : Path) : ∀ piece ∈ pieces p, slash ∉ piece := by
  induction p with
  | nil => simp [pieces]
  | cons b p ih =>
    cases hp : pieces p with
    | nil => exact absurd hp (pieces_ne_nil p)
    | cons first rest =>
      by_cases hb : b = slash
      · rw [hb, pieces_slash]
        exact List.forall_mem_cons.mpr ⟨List.not_mem_nil, ih⟩
      · rw [hp] at ih
        obtain ⟨hfirst, hrest⟩ := List.forall_mem_cons.mp ih
        rw [pieces_of_ne hb hp]
        exact List.forall_mem_cons.mpr ⟨by simp [hfirst, Ne.symm hb], hrest⟩

/-! ## Names -/

theorem names_of_pieces (h : pieces p = first :: rest) :
    names p = (if first.isEmpty then [] else [first]) ++ rest.filter (!isSilent ·) := by
  rw [names, h]

theorem trimPieces_cons (first : Bytes) (rest : List Bytes) :
    trimPieces (first :: rest) = first :: rest.rdropWhile isSilent :=
  rfl

theorem filter_rdropWhile (ps : List Bytes) :
    (ps.rdropWhile isSilent).filter (!isSilent ·) = ps.filter (!isSilent ·) := by
  induction ps using List.reverseRecOn with
  | nil => rfl
  | append_singleton ps piece ih =>
    by_cases hs : isSilent piece = true
    · rw [List.rdropWhile_concat_pos _ _ _ hs, ih, List.filter_append]
      simp [hs]
    · rw [List.rdropWhile_concat_neg _ _ _ hs]

theorem isAbsolute_of_pieces (h : pieces p = first :: rest) : isAbsolute p = (first.isEmpty && !rest.isEmpty) := by
  cases p with
  | nil =>
    cases h
    rfl
  | cons b p =>
    by_cases hb : b = slash
    · rw [hb, pieces_slash, List.cons.injEq] at h
      obtain ⟨rfl, rfl⟩ := h
      simp [hb, isAbsolute, pieces_ne_nil]
    · cases hp : pieces p with
      | nil => exact absurd hp (pieces_ne_nil p)
      | cons first' rest' =>
        rw [pieces_of_ne hb hp, List.cons.injEq] at h
        obtain ⟨rfl, rfl⟩ := h
        simp [hb, isAbsolute]

theorem mem_names_of_isAbsolute (h : isAbsolute p = true) {name : Bytes} (hname : name ∈ names p) :
    isSilent name = false ∧ slash ∉ name := by
  cases hp : pieces p with
  | nil => exact absurd hp (pieces_ne_nil p)
  | cons first rest =>
    rw [isAbsolute_of_pieces hp, Bool.and_eq_true_iff] at h
    rw [names_of_pieces hp, if_pos h.1, List.nil_append, List.mem_filter, Bool.not_eq_true'] at hname
    exact ⟨hname.2, slash_not_mem p name (hp ▸ List.mem_cons_of_mem _ hname.1)⟩

/-! ## The path above -/

/-- The path above lacks the last piece that names anything, and what names nothing in front of it. -/
theorem parent?_cases (h : parent? p = some q) : ∃ first rest, pieces p = first :: rest ∧
    (first ≠ [] ∧ rest.rdropWhile isSilent = [] ∧ q = [] ∨
      ∃ kept last, rest.rdropWhile isSilent = kept ++ [last] ∧ isSilent last = false ∧
        (first = [] ∧ kept.rdropWhile isSilent = [] ∧ q = [slash] ∨
          first :: kept.rdropWhile isSilent ≠ [[]] ∧ pieces q = first :: kept.rdropWhile isSilent)) := by
  obtain ⟨more, -, hmore⟩ := exists_append_eq_pieces p
  have hslash : ∀ piece ∈ trimPieces (trimPieces (pieces p)).dropLast, slash ∉ piece := fun piece hpiece =>
    slash_not_mem p piece (hmore ▸ List.mem_append_left more hpiece)
  have hp : names p ≠ [] := by
    intro hp
    simp [parent?, hp] at h
  rw [parent?, if_neg (by simpa using hp)] at h
  cases hpieces : pieces p with
  | nil => exact absurd hpieces (pieces_ne_nil p)
  | cons first rest =>
    refine ⟨first, rest, rfl, ?_⟩
    rw [names_of_pieces hpieces, ← filter_rdropWhile] at hp
    rw [hpieces, trimPieces_cons] at h hslash
    rcases List.eq_nil_or_concat' (rest.rdropWhile isSilent) with hnone | ⟨kept, last, hkept⟩
    · rw [hnone] at h hp
      cases h
      exact .inl ⟨by simpa using hp, hnone, rfl⟩
    · have hlast : isSilent last = false := by
        have hnot := List.rdropWhile_last_not isSilent rest (by simp [hkept])
        simpa [hkept] using hnot
      rw [hkept, List.dropLast_cons_of_ne_nil (by simp), List.dropLast_concat, trimPieces_cons] at h hslash
      refine .inr ⟨kept, last, hkept, hlast, ?_⟩
      split at h
      · rename_i hroot
        obtain ⟨rfl, hnone⟩ := List.cons.inj hroot
        have hrest : rest ≠ [] := by
          rintro rfl
          simp at hkept
        rw [isAbsolute_of_pieces hpieces, if_pos (by simpa using hrest)] at h
        cases h
        exact .inl ⟨rfl, hnone, rfl⟩
      · rename_i hroot
        cases h
        exact .inr ⟨hroot, pieces_ofPieces (by simp) hslash⟩

theorem parent?_eq_none_iff : parent? p = none ↔ names p = [] := by
  rw [parent?]
  split
  · simp_all
  · split
    · split <;> simp_all
    · simp_all

theorem names_parent? (h : parent? p = some q) : names q = (names p).dropLast := by
  obtain ⟨first, rest, hp, h⟩ := parent?_cases h
  rw [names_of_pieces hp, ← filter_rdropWhile]
  rcases h with ⟨-, hnone, rfl⟩ | ⟨kept, last, hkept, hlast, h⟩
  · rw [hnone]
    split <;> rfl
  · have hnames : ((if first.isEmpty then [] else [first]) ++ (kept ++ [last]).filter (!isSilent ·)).dropLast =
        (if first.isEmpty then [] else [first]) ++ (kept.rdropWhile isSilent).filter (!isSilent ·) := by
      rw [List.filter_append, filter_rdropWhile, List.filter_singleton, hlast, ← List.append_assoc]
      exact List.dropLast_concat
    rw [hkept, hnames]
    rcases h with ⟨rfl, hnone, rfl⟩ | ⟨-, hq⟩
    · rw [hnone]
      rfl
    · exact names_of_pieces hq

theorem isAbsolute_parent? (h : parent? p = some q) : isAbsolute q = isAbsolute p := by
  obtain ⟨first, rest, hp, h⟩ := parent?_cases h
  rw [isAbsolute_of_pieces hp]
  rcases h with ⟨hfirst, -, rfl⟩ | ⟨kept, last, hkept, -, h⟩
  · simp [hfirst, isAbsolute]
  · have hrest : rest ≠ [] := by
      rintro rfl
      simp at hkept
    rcases h with ⟨rfl, -, rfl⟩ | ⟨hroot, hq⟩
    · simp [hrest, isAbsolute]
    · rw [isAbsolute_of_pieces hq]
      by_cases hfirst : first = []
      · have hkeptRest : kept.rdropWhile isSilent ≠ [] := fun hnone => hroot (by rw [hfirst, hnone])
        rw [List.isEmpty_eq_false_iff.mpr hkeptRest, List.isEmpty_eq_false_iff.mpr hrest]
      · rw [List.isEmpty_eq_false_iff.mpr hfirst]
        rfl

end Path

end Liaison
