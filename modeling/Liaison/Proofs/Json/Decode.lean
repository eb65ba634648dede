import Liaison.Position
import Mathlib.Data.List.Forall2

/-!
# Decoding what was encoded

A record whose fields are all there, each with a value that decodes, decodes from the object that has
them. Positions and ranges are such records.
-/

namespace Liaison

/-! ## Lists -/

theorem mapM_eq_ok_iff {ε α β : Type} {f : α → Except ε β} {as : List α} {bs : List β} :
    as.mapM f = .ok bs ↔ List.Forall₂ (fun a b => f a = .ok b) as bs := by
  induction as generalizing bs with
  | nil => cases bs <;> simp [pure, Except.pure]
  | cons a as ih =>
    rw [List.mapM_cons]
    cases h : f a with
    | error e => cases bs <;> simp [bind, Except.bind, h]
    | ok b =>
      cases hs : as.mapM f <;> cases bs <;> simp [bind, Except.bind, pure, Except.pure, ← ih, h, hs]

theorem mem_iff_of_mapM_eq_ok {ε α β : Type} {f : α → Except ε β} {as : List α} {bs : List β}
    (h : as.mapM f = .ok bs) (b : β) : b ∈ bs ↔ ∃ a ∈ as, f a = .ok b := by
  induction mapM_eq_ok_iff.mp h with
  | nil => simp
  | cons hb _ ih =>
    obtain ⟨-, hrest⟩ := List.forall₂_cons.mp (mapM_eq_ok_iff.mp h)
    simp [ih (mapM_eq_ok_iff.mpr hrest), hb, eq_comm]

theorem exists_mapM_eq_ok_iff {ε α β : Type} {f : α → Except ε β} {as : List α} :
    (∃ bs, as.mapM f = .ok bs) ↔ ∀ a ∈ as, ∃ b, f a = .ok b := by
  induction as with
  | nil => simp [pure, Except.pure]
  | cons a as ih =>
    simp only [mapM_eq_ok_iff, List.forall₂_cons_left_iff, List.forall_mem_cons] at ih ⊢
    rw [← ih]
    constructor
    · rintro ⟨_, b, bs, hb, hbs, rfl⟩
      exact ⟨⟨b, hb⟩, bs, hbs⟩
    · rintro ⟨⟨b, hb⟩, bs, hbs⟩
      exact ⟨_, b, bs, hb, hbs, rfl⟩

/-! ## Decoders -/

theorem string_eq_ok_iff {v : Json} {s : String} : Decoder.string v = .ok s ↔ v = .str s := by
  cases v <;> simp [Decoder.string]

namespace Decoder

variable {α β : Type} {d : Decoder α} {v : Json}

/-- What is absent or null is nothing, and anything else is decoded. -/
inductive IsOptional (d : Decoder α) : Option Json → Option α → Prop
  | absent : IsOptional d none none
  | null : IsOptional d (some .null) none
  | value {v : Json} {a : α} (hv : v ≠ .null) (h : d v = .ok a) : IsOptional d (some v) (some a)

theorem isOptional_none_iff {a : Option α} : d.IsOptional none a ↔ a = none := by
  constructor
  · rintro ⟨⟩
    rfl
  · rintro rfl
    exact .absent

theorem optional_of_ne_null (hv : v ≠ .null) : d.optional v = (d v).map some := by
  cases v <;> first | rfl | exact absurd rfl hv

theorem optional_eq_ok_iff {a : Option α} : d.optional v = .ok a ↔ d.IsOptional (some v) a := by
  by_cases hv : v = .null
  · subst hv
    constructor
    · rintro ⟨⟩
      exact .null
    · rintro (_ | _ | ⟨hne, -⟩)
      · rfl
      · exact absurd rfl hne
  · rw [optional_of_ne_null hv]
    constructor
    · intro h
      cases hd : d v with
      | error e => simp [hd, Except.map] at h
      | ok b =>
        simp only [hd, Except.map, Except.ok.injEq] at h
        subst h
        exact .value hv hd
    · rintro (_ | _ | ⟨-, h⟩)
      · exact absurd rfl hv
      · simp [h, Except.map]

theorem as_eq_ok_iff {f : α → β} {b : β} : as f d v = .ok b ↔ ∃ a, d v = .ok a ∧ f a = b := by
  unfold as
  cases d v <;> simp [Except.map]

theorem list_eq_ok_iff {as : List α} : list d v = .ok as ↔
    ∃ items, v = .arr items ∧ List.Forall₂ (fun item a => d item = .ok a) items as := by
  simp only [← mapM_eq_ok_iff]
  cases v <;> simp [list]

theorem list_of_mem_iff {items items' : List Json} (hmem : ∀ v, v ∈ items ↔ v ∈ items') {as : List α}
    (h : list d (.arr items) = .ok as) : ∃ as', list d (.arr items') = .ok as' ∧ ∀ a, a ∈ as ↔ a ∈ as' := by
  simp only [list] at h ⊢
  have hall : ∀ v ∈ items', ∃ a, d v = .ok a := by
    simp only [← hmem]
    exact exists_mapM_eq_ok_iff.mp ⟨as, h⟩
  obtain ⟨as', has'⟩ := exists_mapM_eq_ok_iff.mpr hall
  refine ⟨as', has', fun a => ?_⟩
  rw [mem_iff_of_mapM_eq_ok h, mem_iff_of_mapM_eq_ok has']
  simp only [hmem]

theorem oneOf_nil_ne_ok {name : String} {a : α} : oneOf name [] v ≠ .ok a := by
  rintro ⟨⟩

theorem oneOf_cons_eq_ok_iff {name : String} {ds : List (Decoder α)} {a : α} :
    oneOf name (d :: ds) v = .ok a ↔ d v = .ok a ∨ (∀ b, d v ≠ .ok b) ∧ oneOf name ds v = .ok a := by
  rw [oneOf]
  cases d v <;> simp

theorem eq_noVariant_of_oneOf {name : String} {ds : List (Decoder α)} {e : DecodeError}
    (h : oneOf name ds v = .error e) : e = .noVariant name := by
  induction ds with
  | nil =>
    cases h
    rfl
  | cons d ds ih =>
    rw [oneOf] at h
    split at h
    · cases h
    · exact ih h

end Decoder

/-! ## Records -/

namespace Record

variable {α β : Type} {lookup : String → Option Json}

theorem find_map (f : α → β) {r : Record α} {a : α} (h : r.find lookup = .all a) :
    (f <$> r).find lookup = .all (f a) := by
  change (Fields.all f).apply (r.find lookup) = _
  rw [h]
  rfl

theorem find_seq {f : Record (α → β)} {r : Record α} {g : α → β} {a : α} (hf : f.find lookup = .all g)
    (h : r.find lookup = .all a) : (f <*> r).find lookup = .all (g a) := by
  change (f.find lookup).apply (r.find lookup) = _
  rw [hf, h]
  rfl

theorem find_field {name : String} {d : Decoder α} {v : Json} {a : α} (hv : lookup name = some v)
    (h : d v = .ok a) : (field name d).find lookup = .all a := by
  simp only [field, fieldWith, hv, h]

theorem apply_eq_all_iff {f : Fields (α → β)} {x : Fields α} {b : β} :
    f.apply x = .all b ↔ ∃ g a, f = .all g ∧ x = .all a ∧ g a = b := by
  cases f <;> cases x <;> simp [Fields.apply]
  all_goals split <;> simp

theorem result_eq_ok_iff {x : Fields α} {a : α} : x.result = .ok a ↔ x = .all a := by
  cases x <;> simp [Fields.result]

theorem find_field_iff {name : String} {d : Decoder α} {a : α} :
    (field name d).find lookup = .all a ↔ ∃ v, lookup name = some v ∧ d v = .ok a := by
  cases h : lookup name with
  | none => simp [field, fieldWith, h]
  | some v => cases hv : d v <;> simp [field, fieldWith, h, hv]

theorem find_map_iff {f : α → β} {r : Record α} {b : β} :
    (f <$> r).find lookup = .all b ↔ ∃ a, r.find lookup = .all a ∧ f a = b := by
  change (Fields.all f).apply (r.find lookup) = _ ↔ _
  simp [apply_eq_all_iff]

theorem find_seq_iff {f : Record (α → β)} {r : Record α} {b : β} : (f <*> r).find lookup = .all b ↔
    ∃ g a, f.find lookup = .all g ∧ r.find lookup = .all a ∧ g a = b :=
  apply_eq_all_iff

theorem find_fieldOpt_iff {name : String} {d : Decoder α} {a : Option α} :
    (fieldOpt name d).find lookup = .all a ↔ d.IsOptional (lookup name) a := by
  cases h : lookup name with
  | none => simp [fieldOpt, fieldWith, h, Decoder.isOptional_none_iff, eq_comm]
  | some v =>
    rw [← Decoder.optional_eq_ok_iff]
    cases hv : d.optional v <;> simp [fieldOpt, fieldWith, h, hv]

theorem find_map_bad (f : α → β) {r : Record α} {name : String} {e : DecodeError} (h : r.find lookup = .bad name e) :
    (f <$> r).find lookup = .bad name e := by
  change (Fields.all f).apply (r.find lookup) = _
  rw [h]
  rfl

theorem find_seq_bad {f : Record (α → β)} {r : Record α} {name : String} {e : DecodeError} {a : α}
    (hf : f.find lookup = .bad name e) (h : r.find lookup = .all a) : (f <*> r).find lookup = .bad name e := by
  change (f.find lookup).apply (r.find lookup) = _
  rw [hf, h]
  rfl

theorem find_field_bad {name : String} {d : Decoder α} {v : Json} {e : DecodeError} (hv : lookup name = some v)
    (h : d v = .error e) : (field name d).find lookup = .bad name e := by
  simp only [field, fieldWith, hv, h]

theorem take_map_iff {f : α → β} {r : Record α} {b : β} {expected : String} {taken : Nat} {items rest : List Json} :
    (f <$> r).take expected taken items = .ok (b, rest) ↔
      ∃ a, r.take expected taken items = .ok (a, rest) ∧ f a = b := by
  change (r.take expected (taken + 0) items >>= fun p => pure (f p.1, p.2)) = _ ↔ _
  rw [Nat.add_zero]
  cases h : r.take expected taken items with
  | error e => simp [bind, Except.bind]
  | ok p =>
    obtain ⟨a, mid⟩ := p
    simp [bind, Except.bind, pure, Except.pure, and_comm, and_left_comm, eq_comm]

theorem take_seq_iff {f : Record (α → β)} {r : Record α} {b : β} {expected : String} {taken : Nat}
    {items rest : List Json} : (f <*> r).take expected taken items = .ok (b, rest) ↔
      ∃ g a mid, f.take expected taken items = .ok (g, mid) ∧
        r.take expected (taken + f.size) mid = .ok (a, rest) ∧ g a = b := by
  change (f.take expected taken items >>= fun p => r.take expected (taken + f.size) p.2 >>= fun q =>
    pure (p.1 q.1, q.2)) = _ ↔ _
  cases hf : f.take expected taken items with
  | error e => simp [bind, Except.bind]
  | ok p =>
    cases h : r.take expected (taken + f.size) p.2 with
    | error e =>
      constructor
      · intro he
        simp [bind, Except.bind, h] at he
      · rintro ⟨g, a, mid, hp, ha, -⟩
        cases hp
        rw [h] at ha
        cases ha
    | ok q =>
      constructor
      · intro he
        simp only [bind, Except.bind, h, pure, Except.pure, Except.ok.injEq, Prod.mk.injEq] at he
        exact ⟨p.1, q.1, p.2, rfl, by rw [h, ← he.2], he.1⟩
      · rintro ⟨g, a, mid, hp, ha, rfl⟩
        cases hp
        rw [h] at ha
        cases ha
        simp [bind, Except.bind, h, pure, Except.pure]

theorem take_field_iff {name : String} {d : Decoder α} {a : α} {expected : String} {taken : Nat}
    {items rest : List Json} : (field name d).take expected taken items = .ok (a, rest) ↔
      ∃ v, items = v :: rest ∧ d v = .ok a := by
  cases items with
  | nil => simp [field, fieldWith]
  | cons v vs =>
    cases hv : d v with
    | error e => simp [field, fieldWith, hv, Except.map]
    | ok b =>
      simp only [field, fieldWith, hv, Except.map, Except.ok.injEq, Prod.mk.injEq, List.cons.injEq]
      constructor
      · rintro ⟨rfl, rfl⟩
        exact ⟨v, ⟨rfl, rfl⟩, hv⟩
      · rintro ⟨_, ⟨rfl, rfl⟩, h⟩
        rw [hv] at h
        cases h
        exact ⟨rfl, rfl⟩

theorem take_fieldOpt_iff {name : String} {d : Decoder α} {a : Option α} {expected : String} {taken : Nat}
    {items rest : List Json} : (fieldOpt name d).take expected taken items = .ok (a, rest) ↔
      d.IsOptional items.head? a ∧ items.tail = rest := by
  cases items with
  | nil => simp [fieldOpt, fieldWith, Decoder.isOptional_none_iff, eq_comm]
  | cons v vs =>
    rw [List.head?_cons, ← Decoder.optional_eq_ok_iff]
    cases hv : d.optional v <;> simp [fieldOpt, fieldWith, hv, Except.map]

theorem take_map_error (f : α → β) {r : Record α} {expected : String} {taken : Nat} {items : List Json}
    {e : DecodeError} (h : r.take expected taken items = .error e) :
    (f <$> r).take expected taken items = .error e := by
  change (r.take expected (taken + 0) items >>= fun p => pure (f p.1, p.2)) = _
  rw [Nat.add_zero, h]
  rfl

theorem take_seq_error {f : Record (α → β)} {r : Record α} {expected : String} {taken : Nat} {items : List Json}
    {e : DecodeError} (h : f.take expected taken items = .error e) :
    (f <*> r).take expected taken items = .error e := by
  change (f.take expected taken items >>= _) = _
  rw [h]
  rfl

theorem take_field_error {name : String} {d : Decoder α} {v : Json} {expected : String} {taken : Nat} {rest : List Json}
    {e : DecodeError} (h : d v = .error e) : (field name d).take expected taken (v :: rest) = .error e := by
  simp [field, fieldWith, h, Except.map]

theorem decode_obj_iff {name : String} {r : Record α} {a : α} {members : List (String × Json)} :
    r.decode name (.obj members) = .ok a ↔ r.find (fun name => Table.get? name members) = .all a :=
  result_eq_ok_iff

theorem object_eq_ok_iff {name : String} {r : Record α} {a : α} {v : Json} : r.object name v = .ok a ↔
    ∃ members, v = .obj members ∧ r.find (fun name => Table.get? name members) = .all a := by
  cases v <;> simp [object, ofMembers, result_eq_ok_iff]

theorem decode_obj_bad {name field : String} {r : Record α} {members : List (String × Json)} {e : DecodeError}
    (h : r.find (fun name => Table.get? name members) = .bad field e) : r.decode name (.obj members) = .error e := by
  rw [decode, ofMembers, h]
  rfl

theorem decode_arr_error {name : String} {r : Record α} {items : List Json} {e : DecodeError}
    (h : ∀ expected taken, r.take expected taken items = .error e) : r.decode name (.arr items) = .error e := by
  simp only [decode, ofItems, h]

theorem decode_arr_iff {name : String} {r : Record α} {a : α} {items : List Json} :
    r.decode name (.arr items) = .ok a ↔ r.ofItems ("struct " ++ name) items = .ok (a, []) := by
  rw [decode]
  cases r.ofItems ("struct " ++ name) items with
  | error e => simp
  | ok p =>
    obtain ⟨b, rest⟩ := p
    cases rest <;> simp

end Record

/-! ## Integers -/

theorem decode_u32 {n : Nat} (h : n ≤ maxCoordinate) : Decoder.u32 (.ofNat n) = .ok n := by
  rw [maxCoordinate] at h
  rw [Decoder.u32, Json.ofNat, Decoder.integer, if_pos (by omega)]
  rfl

/-! ## Positions and ranges -/

namespace Wire

def Position.Fits (p : Position) : Prop :=
  p.line ≤ maxCoordinate ∧ p.character ≤ maxCoordinate

theorem Position.decode_toJson {p : Position} (h : p.Fits) : decode p.toJson = .ok p := by
  have hline : Table.get? "line" (Table.ofList [("line", Json.ofNat p.line), ("character", Json.ofNat p.character)]) =
      some (Json.ofNat p.line) := by simp [Table.ofList]
  have hcharacter : Table.get? "character"
      (Table.ofList [("line", Json.ofNat p.line), ("character", Json.ofNat p.character)]) =
      some (Json.ofNat p.character) := by simp [Table.ofList]
  exact congrArg Fields.result (Record.find_seq
    (Record.find_map Position.mk (Record.find_field hline (decode_u32 h.1)))
    (Record.find_field hcharacter (decode_u32 h.2)))

theorem Range.decode_toJson {r : Range} (hs : r.start.Fits) (he : r.stop.Fits) : decode r.toJson = .ok r := by
  have hstart : Table.get? "start" (Table.ofList [("start", r.start.toJson), ("end", r.stop.toJson)]) =
      some r.start.toJson := by simp [Table.ofList]
  have hstop : Table.get? "end" (Table.ofList [("start", r.start.toJson), ("end", r.stop.toJson)]) =
      some r.stop.toJson := by simp [Table.ofList]
  exact congrArg Fields.result (Record.find_seq
    (Record.find_map Range.mk (Record.find_field hstart (Position.decode_toJson hs)))
    (Record.find_field hstop (Position.decode_toJson he)))

end Wire

end Liaison
