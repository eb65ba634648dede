/-!
# Tables

A table holds one value a key, in ascending order of the keys.
-/

namespace Liaison

/-- Pairs of a key and its value, in ascending order of the keys. -/
abbrev Table (κ α : Type) := List (κ × α)

namespace Table

variable {κ α : Type} [LT κ] [DecidableLT κ] [DecidableEq κ]

def get? (k : κ) : Table κ α → Option α
  | [] => none
  | (l, a) :: rest => if k = l then some a else get? k rest

def insert (k : κ) (a : α) : Table κ α → Table κ α
  | [] => [(k, a)]
  | (l, b) :: rest =>
    if k < l then (k, a) :: (l, b) :: rest
    else if k = l then (k, a) :: rest
    else (l, b) :: insert k a rest

def erase (k : κ) : Table κ α → Table κ α
  | [] => []
  | (l, b) :: rest => if k = l then erase k rest else (l, b) :: erase k rest

/-- The table of a list of pairs. The last of two pairs of one key wins. -/
def ofList (pairs : List (κ × α)) : Table κ α :=
  pairs.foldl (fun t p => t.insert p.1 p.2) []

omit [LT κ] [DecidableLT κ] in
@[simp] theorem get?_nil (k : κ) : get? k ([] : Table κ α) = none := rfl

omit [DecidableLT κ] [LT κ] in
@[simp] theorem get?_erase (k l : κ) (t : Table κ α) :
    (t.erase l).get? k = if k = l then none else t.get? k := by
  induction t with
  | nil => simp [erase, get?]
  | cons p t ih => grind [erase, get?]

@[simp] theorem get?_insert (k l : κ) (a : α) (t : Table κ α) :
    (t.insert l a).get? k = if k = l then some a else t.get? k := by
  induction t with
  | nil => simp [insert, get?]
  | cons p t ih => grind [insert, get?]

omit [LT κ] [DecidableLT κ] in
theorem get?_map {β : Type} (f : α → β) (k : κ) (t : Table κ α) :
    get? k (t.map fun p => (p.1, f p.2)) = (t.get? k).map f := by
  induction t with
  | nil => rfl
  | cons p t ih =>
    rw [List.map_cons, get?, get?, ih]
    split <;> rfl

theorem mem_insert {k : κ} {a : α} {p : κ × α} {t : Table κ α} (h : p ∈ t.insert k a) : p = (k, a) ∨ p ∈ t := by
  induction t with
  | nil => exact .inl (List.mem_singleton.mp h)
  | cons q t ih =>
    unfold insert at h
    split at h
    · exact List.mem_cons.mp h
    · split at h
      · exact (List.mem_cons.mp h).imp_right (List.mem_cons_of_mem _)
      · rcases List.mem_cons.mp h with rfl | h
        · exact .inr List.mem_cons_self
        · exact (ih h).imp_right (List.mem_cons_of_mem _)

end Table

end Liaison
