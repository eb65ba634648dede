import Liaison.Answer.Location
import Liaison.Proofs.Json.Decode
import Liaison.Proofs.Text.ByteOrder
import Mathlib.Data.List.Sort
import Mathlib.Data.Prod.Lex
import Mathlib.Tactic.Tauto

/-!
# Locations in ascending order

Whatever shape an answer has, the locations that it names come back in strictly ascending order, and none is left out.
So it does not matter in which order the answer has them, or how often.
-/

namespace Liaison

/-! ## What an answer names -/

namespace Wire

structure Spot where
  uri : String
  range : Range

def Spot.oneIndexed (s : Spot) : Location :=
  ⟨s.uri, s.range.toRange⟩

/-- The value is a location: an object with a URI and a range, or the two in an array. -/
inductive IsLocation : Json → Spot → Prop
  | object {members : List (String × Json)} {u v : Json} {s : Spot} (hu : Table.get? "uri" members = some u)
    (hs : Decoder.string u = .ok s.uri) (hv : Table.get? "range" members = some v) (hr : Range.decode v = .ok s.range) :
    IsLocation (.obj members) s
  | array {u v : Json} {s : Spot} (hs : Decoder.string u = .ok s.uri) (hr : Range.decode v = .ok s.range) :
    IsLocation (.arr [u, v]) s

/-- The value is a link: an object with a URI, the range of the whole and perhaps the range of the name itself, or these
in an array. A link leads to the name itself if it can. -/
inductive IsLink : Json → Spot → Prop
  | object {members : List (String × Json)} {u v : Json} {s : Spot} {whole : Range} {name : Option Range}
    (hu : Table.get? "targetUri" members = some u) (hs : Decoder.string u = .ok s.uri)
    (hv : Table.get? "targetRange" members = some v) (hw : Range.decode v = .ok whole)
    (hn : Decoder.IsOptional Range.decode (Table.get? "targetSelectionRange" members) name)
    (hr : s.range = name.getD whole) : IsLink (.obj members) s
  | array {u v : Json} {rest : List Json} {s : Spot} {whole : Range} {name : Option Range}
    (hs : Decoder.string u = .ok s.uri) (hw : Range.decode v = .ok whole) (hl : rest.length ≤ 1)
    (hn : Decoder.IsOptional Range.decode rest.head? name) (hr : s.range = name.getD whole) :
    IsLink (.arr (u :: v :: rest)) s

/-- What an answer names: nothing, one location, or as many as it has elements. These are links only if they are not all
locations. -/
inductive Names : Json → List Spot → Prop
  | nothing : Names .null []
  | one {v : Json} {s : Spot} (h : IsLocation v s) : Names v [s]
  | many {items : List Json} {spots : List Spot} (h : List.Forall₂ IsLocation items spots) : Names (.arr items) spots
  | links {items : List Json} {spots : List Spot} (hn : ∃ v ∈ items, ∀ s, ¬ IsLocation v s)
    (h : List.Forall₂ IsLink items spots) : Names (.arr items) spots

/-! ## Decoding -/

theorem tail_eq_nil_iff {α : Type} {as : List α} : as.tail = [] ↔ as.length ≤ 1 := by
  rw [← List.length_eq_zero_iff, List.length_tail, Nat.sub_eq_zero_iff_le]

theorem location_eq_ok_iff {v : Json} {l : Location} : location v = .ok l ↔ ∃ s, IsLocation v s ∧ s.oneIndexed = l := by
  unfold location
  constructor
  · intro h
    cases v with
    | obj members =>
      rw [Record.decode_obj_iff] at h
      simp only [Record.find_seq_iff, Record.find_map_iff, Record.find_field_iff] at h
      obtain ⟨_, range, ⟨uri, ⟨u, hu, hs⟩, rfl⟩, ⟨v, hv, hr⟩, rfl⟩ := h
      exact ⟨⟨uri, range⟩, .object hu hs hv hr, rfl⟩
    | arr items =>
      rw [Record.decode_arr_iff] at h
      simp only [Record.ofItems, Record.take_seq_iff, Record.take_map_iff, Record.take_field_iff] at h
      obtain ⟨_, range, _, ⟨uri, ⟨u, rfl, hs⟩, rfl⟩, ⟨v, rfl, hr⟩, rfl⟩ := h
      exact ⟨⟨uri, range⟩, .array hs hr, rfl⟩
    | _ => cases h
  · rintro ⟨s, hs, rfl⟩
    cases hs with
    | object hu hs hv hr =>
      rw [Record.decode_obj_iff]
      simp only [Record.find_seq_iff, Record.find_map_iff, Record.find_field_iff]
      exact ⟨_, s.range, ⟨s.uri, ⟨_, hu, hs⟩, rfl⟩, ⟨_, hv, hr⟩, rfl⟩
    | array hs hr =>
      rw [Record.decode_arr_iff]
      simp only [Record.ofItems, Record.take_seq_iff, Record.take_map_iff, Record.take_field_iff]
      exact ⟨_, s.range, _, ⟨s.uri, ⟨_, rfl, hs⟩, rfl⟩, ⟨_, rfl, hr⟩, rfl⟩

theorem locationLink_eq_ok_iff {v : Json} {l : Location} :
    locationLink v = .ok l ↔ ∃ s, IsLink v s ∧ s.oneIndexed = l := by
  unfold locationLink
  constructor
  · intro h
    cases v with
    | obj members =>
      rw [Record.decode_obj_iff] at h
      simp only [Record.find_seq_iff, Record.find_map_iff, Record.find_field_iff, Record.find_fieldOpt_iff] at h
      obtain ⟨_, name, ⟨_, whole, ⟨uri, ⟨u, hu, hs⟩, rfl⟩, ⟨v, hv, hw⟩, rfl⟩, hn, rfl⟩ := h
      exact ⟨⟨uri, name.getD whole⟩, .object hu hs hv hw hn rfl, rfl⟩
    | arr items =>
      rw [Record.decode_arr_iff] at h
      simp only [Record.ofItems, Record.take_seq_iff, Record.take_map_iff, Record.take_field_iff,
        Record.take_fieldOpt_iff] at h
      obtain ⟨_, name, rest, ⟨_, whole, _, ⟨uri, ⟨u, rfl, hs⟩, rfl⟩, ⟨v, rfl, hw⟩, rfl⟩, ⟨hn, hl⟩, rfl⟩ := h
      exact ⟨⟨uri, name.getD whole⟩, .array hs hw (tail_eq_nil_iff.mp hl) hn rfl, rfl⟩
    | _ => cases h
  · rintro ⟨s, hs, rfl⟩
    obtain ⟨uri, range⟩ := s
    cases hs with
    | object hu hs hv hw hn hr =>
      obtain rfl := hr
      rw [Record.decode_obj_iff]
      simp only [Record.find_seq_iff, Record.find_map_iff, Record.find_field_iff, Record.find_fieldOpt_iff]
      exact ⟨_, _, ⟨_, _, ⟨uri, ⟨_, hu, hs⟩, rfl⟩, ⟨_, hv, hw⟩, rfl⟩, hn, rfl⟩
    | array hs hw hl hn hr =>
      obtain rfl := hr
      rw [Record.decode_arr_iff]
      simp only [Record.ofItems, Record.take_seq_iff, Record.take_map_iff, Record.take_field_iff,
        Record.take_fieldOpt_iff]
      exact ⟨_, _, _, ⟨_, _, _, ⟨uri, ⟨_, rfl, hs⟩, rfl⟩, ⟨_, rfl, hw⟩, rfl⟩, ⟨hn, tail_eq_nil_iff.mpr hl⟩, rfl⟩

theorem list_eq_ok_iff {d : Decoder Location} {R : Json → Spot → Prop}
    (hd : ∀ v l, d v = .ok l ↔ ∃ s, R v s ∧ s.oneIndexed = l) {v : Json} {ls : List Location} :
    Decoder.list d v = .ok ls ↔
      ∃ items spots, v = .arr items ∧ List.Forall₂ R items spots ∧ spots.map Spot.oneIndexed = ls := by
  simp only [Decoder.list_eq_ok_iff, hd]
  constructor
  · rintro ⟨items, rfl, h⟩
    suffices ∃ spots, List.Forall₂ R items spots ∧ spots.map Spot.oneIndexed = ls by
      obtain ⟨spots, hspots, hls⟩ := this
      exact ⟨items, spots, rfl, hspots, hls⟩
    induction h with
    | nil => exact ⟨[], .nil, rfl⟩
    | cons hs _ ih =>
      obtain ⟨s, hs, rfl⟩ := hs
      obtain ⟨spots, hspots, rfl⟩ := ih
      exact ⟨s :: spots, .cons hs hspots, rfl⟩
  · rintro ⟨items, spots, rfl, h, rfl⟩
    exact ⟨items, rfl, List.forall₂_map_right_iff.mpr (h.imp fun _ s hs => ⟨s, hs, rfl⟩)⟩

theorem as_location_ne_ok {items : List Json} (h : ∀ u, .str u ∉ items) (ls : List Location) :
    Decoder.as (fun l => [l]) location (.arr items) ≠ .ok ls := by
  intro hone
  obtain ⟨l, hl, -⟩ := Decoder.as_eq_ok_iff.mp hone
  obtain ⟨s, hs, -⟩ := location_eq_ok_iff.mp hl
  cases hs with
  | array hu hr =>
    obtain rfl := string_eq_ok_iff.mp hu
    exact h s.uri List.mem_cons_self

theorem text_not_mem {R : Json → Spot → Prop} (hR : ∀ u s, ¬ R (.str u) s) {items : List Json} {spots : List Spot}
    (h : List.Forall₂ R items spots) (u : String) : .str u ∉ items := by
  induction h with
  | nil => exact List.not_mem_nil
  | @cons v s _ _ hs _ ih =>
    rw [List.mem_cons, not_or]
    refine ⟨?_, ih⟩
    rintro rfl
    exact hR u s hs

theorem exists_list_location_iff {items : List Json} :
    (∃ ls, Decoder.list location (.arr items) = .ok ls) ↔ ∀ v ∈ items, ∃ s, IsLocation v s := by
  rw [Decoder.list, exists_mapM_eq_ok_iff]
  simp [location_eq_ok_iff]

theorem locations_of_ne_null {v : Json} (hv : v ≠ .null) : locations v =
    Decoder.oneOf "GotoResponse" [.as (fun l => [l]) location, .list location, .list locationLink] v := by
  rw [locations, Decoder.as, Decoder.optional_of_ne_null hv]
  cases Decoder.oneOf "GotoResponse" [.as (fun l => [l]) location, .list location, .list locationLink] v <;> rfl

theorem locations_eq_ok_iff {v : Json} {ls : List Location} :
    locations v = .ok ls ↔ ∃ spots, Names v spots ∧ spots.map Spot.oneIndexed = ls := by
  by_cases hv : v = .null
  · subst hv
    constructor
    · rintro ⟨⟩
      exact ⟨[], .nothing, rfl⟩
    · rintro ⟨_, (_ | ⟨⟨⟩⟩), rfl⟩
      rfl
  rw [locations_of_ne_null hv]
  simp only [Decoder.oneOf_cons_eq_ok_iff, Decoder.oneOf_nil_ne_ok, and_false, or_false]
  constructor
  · rintro (hone | ⟨-, hmany | ⟨hn, hlinks⟩⟩)
    · obtain ⟨l, hl, rfl⟩ := Decoder.as_eq_ok_iff.mp hone
      obtain ⟨s, hs, rfl⟩ := location_eq_ok_iff.mp hl
      exact ⟨[s], .one hs, rfl⟩
    · obtain ⟨items, spots, rfl, hspots, rfl⟩ := (list_eq_ok_iff @location_eq_ok_iff).mp hmany
      exact ⟨spots, .many hspots, rfl⟩
    · obtain ⟨items, spots, rfl, hspots, rfl⟩ := (list_eq_ok_iff @locationLink_eq_ok_iff).mp hlinks
      have hnone : ¬ ∀ v ∈ items, ∃ s, IsLocation v s := by
        rw [← exists_list_location_iff]
        exact fun ⟨ls, hls⟩ => hn ls hls
      push Not at hnone
      exact ⟨spots, .links hnone hspots, rfl⟩
  · rintro ⟨spots, hnames, rfl⟩
    cases hnames with
    | nothing => exact absurd rfl hv
    | one h => exact .inl (Decoder.as_eq_ok_iff.mpr ⟨_, location_eq_ok_iff.mpr ⟨_, h, rfl⟩, rfl⟩)
    | many h =>
      have hlist := (list_eq_ok_iff @location_eq_ok_iff).mpr ⟨_, spots, rfl, h, rfl⟩
      exact .inr ⟨as_location_ne_ok (text_not_mem (fun _ _ => nofun) h), .inl hlist⟩
    | links hn h =>
      have hlist := (list_eq_ok_iff @locationLink_eq_ok_iff).mpr ⟨_, spots, rfl, h, rfl⟩
      refine .inr ⟨as_location_ne_ok (text_not_mem (fun _ _ => nofun) h), .inr ⟨fun ls hls => ?_, hlist⟩⟩
      obtain ⟨v, hv, hnot⟩ := hn
      obtain ⟨s, hs⟩ := exists_list_location_iff.mp ⟨ls, hls⟩ v hv
      exact hnot s hs

theorem eq_noVariant_of_locations {v : Json} {e : DecodeError} (h : locations v = .error e) :
    e = .noVariant "GotoResponse" := by
  by_cases hv : v = .null
  · subst hv
    cases h
  · rw [locations_of_ne_null hv] at h
    exact Decoder.eq_noVariant_of_oneOf h

theorem text_not_mem_of_objects {items : List Json} (hobject : ∀ v ∈ items, ∃ members, v = .obj members) (u : String) :
    .str u ∉ items := by
  intro hu
  obtain ⟨members, ⟨⟩⟩ := hobject _ hu

theorem locations_of_mem_iff {items items' : List Json} (hobject : ∀ v ∈ items, ∃ members, v = .obj members)
    (hmem : ∀ v, v ∈ items ↔ v ∈ items') {ls : List Location} (h : locations (.arr items) = .ok ls) :
    ∃ ls', locations (.arr items') = .ok ls' ∧ ∀ l, l ∈ ls ↔ l ∈ ls' := by
  have hobject' : ∀ v ∈ items', ∃ members, v = .obj members := by simpa only [← hmem] using hobject
  rw [locations_of_ne_null (by simp)] at h ⊢
  simp only [Decoder.oneOf_cons_eq_ok_iff, Decoder.oneOf_nil_ne_ok, and_false, or_false] at h ⊢
  have hone := as_location_ne_ok (text_not_mem_of_objects hobject')
  rcases h with h | ⟨-, hmany | ⟨hn, hlinks⟩⟩
  · exact absurd h (as_location_ne_ok (text_not_mem_of_objects hobject) ls)
  · obtain ⟨ls', hls', hsame⟩ := Decoder.list_of_mem_iff hmem hmany
    exact ⟨ls', .inr ⟨hone, .inl hls'⟩, hsame⟩
  · obtain ⟨ls', hls', hsame⟩ := Decoder.list_of_mem_iff hmem hlinks
    refine ⟨ls', .inr ⟨hone, .inr ⟨fun as has => ?_, hls'⟩⟩, hsame⟩
    obtain ⟨as', has', -⟩ := Decoder.list_of_mem_iff (fun v => (hmem v).symm) has
    exact hn as' has'

end Wire

/-! ## The order -/

namespace Position

def rank (p : Position) : Nat ×ₗ Nat :=
  toLex (p.line, p.column)

theorem rank_eq_rank_iff {p q : Position} : p.rank = q.rank ↔ p = q := by
  obtain ⟨line, column⟩ := p
  obtain ⟨line', column'⟩ := q
  simp [rank]

theorem before_iff_rank_lt {p q : Position} : p.before q = true ↔ p.rank < q.rank := by
  simp [before, rank, Prod.Lex.toLex_lt_toLex]

end Position

namespace Location

variable {a b : Location} {ls ls' : List Location}

/-- The first location is before the second: by the bytes of their URIs, then by their starts, then by their ends. -/
def Precedes (a b : Location) : Prop :=
  Utf8.ofString a.uri < Utf8.ofString b.uri ∨ a.uri = b.uri ∧
    (a.range.start.before b.range.start = true ∨
      a.range.start = b.range.start ∧ a.range.stop.before b.range.stop = true)

instance (a b : Location) : Decidable (a.Precedes b) :=
  inferInstanceAs (Decidable (_ ∨ _ ∧ (_ ∨ _ ∧ _)))

def rank (l : Location) : String ×ₗ (Nat ×ₗ Nat) ×ₗ (Nat ×ₗ Nat) :=
  toLex (l.uri, toLex (l.range.start.rank, l.range.stop.rank))

theorem rank_injective : Function.Injective rank := by
  rintro ⟨uri, ⟨start, stop⟩⟩ ⟨uri', ⟨start', stop'⟩⟩ h
  simpa [rank, Position.rank_eq_rank_iff] using h

theorem precedes_iff_rank_lt : a.Precedes b ↔ a.rank < b.rank := by
  simp [Precedes, rank, Prod.Lex.toLex_lt_toLex, Utf8.ofString_lt_iff, Position.before_iff_rank_lt,
    Position.rank_eq_rank_iff]

theorem atMost_iff_rank_le : a.atMost b = true ↔ a.rank ≤ b.rank := by
  have hcompare : a.compare b = Ord.compare a.rank b.rank := rfl
  rw [atMost, hcompare, ← Ordering.ne_gt_iff_isLE]
  exact compare_le_iff_le

theorem pairwise_mergeSort_atMost (ls : List Location) : (ls.mergeSort atMost).Pairwise fun a b => a.rank ≤ b.rank := by
  simp only [← atMost_iff_rank_le]
  apply List.pairwise_mergeSort
  · simp only [atMost_iff_rank_le]
    exact fun _ _ _ => le_trans
  · simp only [Bool.or_eq_true, atMost_iff_rank_le]
    exact fun a b => le_total a.rank b.rank

/-! ## Dropping what is there twice -/

theorem mem_dedup (l : Location) : l ∈ dedup ls ↔ l ∈ ls := by
  fun_induction dedup ls with
  | case1 => rfl
  | case2 => rfl
  | case3 m rest ih => simp [ih]
  | case4 l m rest _ ih => simp [ih]

theorem pairwise_dedup (h : ls.Pairwise fun a b => a.rank ≤ b.rank) : (dedup ls).Pairwise Precedes := by
  fun_induction dedup ls with
  | case1 => exact .nil
  | case2 => exact List.pairwise_singleton ..
  | case3 m rest ih => exact ih h.of_cons
  | case4 l m rest hne ih =>
    obtain ⟨hfirst, hrest⟩ := List.pairwise_cons.mp h
    refine List.pairwise_cons.mpr ⟨fun a ha => ?_, ih hrest⟩
    rw [mem_dedup] at ha
    -- The next one is another location, so it is further on, and what follows is not before it.
    have hnext : l.rank < m.rank := lt_of_le_of_ne (hfirst m List.mem_cons_self) (rank_injective.ne hne)
    rw [precedes_iff_rank_lt]
    rcases List.mem_cons.mp ha with rfl | ha
    · exact hnext
    · exact hnext.trans_le ((List.pairwise_cons.mp hrest).1 a ha)

theorem mem_normalize (l : Location) : l ∈ normalize ls ↔ l ∈ ls := by
  rw [normalize, mem_dedup, List.mem_mergeSort]

theorem pairwise_normalize (ls : List Location) : (normalize ls).Pairwise Precedes :=
  pairwise_dedup (pairwise_mergeSort_atMost ls)

theorem eq_of_pairwise (h : ls.Pairwise Precedes) (h' : ls'.Pairwise Precedes) (hmem : ∀ l, l ∈ ls ↔ l ∈ ls') :
    ls = ls' := by
  have hirrefl : Std.Irrefl Precedes := ⟨fun a => by simp [precedes_iff_rank_lt]⟩
  have hantisymm : Std.Antisymm Precedes := ⟨fun a b hab hba => by
    rw [precedes_iff_rank_lt] at hab hba
    exact absurd hba hab.asymm⟩
  exact h.eq_of_mem_iff h' hmem

theorem normalize_eq_iff : normalize ls = ls' ↔ ls'.Pairwise Precedes ∧ ∀ l, l ∈ ls' ↔ l ∈ ls := by
  constructor
  · rintro rfl
    exact ⟨pairwise_normalize ls, mem_normalize⟩
  · rintro ⟨h, hmem⟩
    exact eq_of_pairwise (pairwise_normalize ls) h fun l => (mem_normalize l).trans (hmem l).symm

/-! ## Answers -/

/-- The locations are those of the spots, as callers count, in strictly ascending order. -/
structure Ascends (ls : List Location) (spots : List Wire.Spot) : Prop where
  pairwise : ls.Pairwise Precedes
  mem (l : Location) : l ∈ ls ↔ l ∈ spots.map Wire.Spot.oneIndexed

theorem Ascends.nodup {spots : List Wire.Spot} (h : Ascends ls spots) : ls.Nodup := by
  refine h.pairwise.imp fun hab => ?_
  rintro rfl
  simp [precedes_iff_rank_lt] at hab

theorem ofAnswer_eq_ok_iff {v : Json} : ofAnswer v = .ok ls ↔ ∃ spots, Wire.Names v spots ∧ Ascends ls spots := by
  have hmap : ofAnswer v = .ok ls ↔ ∃ named, Wire.locations v = .ok named ∧ normalize named = ls :=
    Decoder.as_eq_ok_iff
  rw [hmap]
  constructor
  · rintro ⟨named, hnamed, hls⟩
    obtain ⟨spots, hspots, rfl⟩ := Wire.locations_eq_ok_iff.mp hnamed
    obtain ⟨hpairwise, hmem⟩ := normalize_eq_iff.mp hls
    exact ⟨spots, hspots, hpairwise, hmem⟩
  · rintro ⟨spots, hspots, hpairwise, hmem⟩
    exact ⟨_, Wire.locations_eq_ok_iff.mpr ⟨spots, hspots, rfl⟩, normalize_eq_iff.mpr ⟨hpairwise, hmem⟩⟩

theorem eq_noVariant_of_ofAnswer {v : Json} {e : DecodeError} (h : ofAnswer v = .error e) :
    e = .noVariant "GotoResponse" := by
  cases hv : Wire.locations v with
  | ok named => simp [ofAnswer, hv, Except.map] at h
  | error e' =>
    simp only [ofAnswer, hv, Except.map, Except.error.injEq] at h
    rw [← h]
    exact Wire.eq_noVariant_of_locations hv

theorem ofAnswer_of_mem_iff {items items' : List Json} (hobject : ∀ v ∈ items, ∃ members, v = .obj members)
    (hmem : ∀ v, v ∈ items ↔ v ∈ items') (h : ofAnswer (.arr items) = .ok ls) : ofAnswer (.arr items') = .ok ls := by
  obtain ⟨named, hnamed, rfl⟩ := Decoder.as_eq_ok_iff.mp h
  obtain ⟨named', hnamed', hsame⟩ := Wire.locations_of_mem_iff hobject hmem hnamed
  refine Decoder.as_eq_ok_iff.mpr ⟨named', hnamed', ?_⟩
  exact normalize_eq_iff.mpr ⟨pairwise_normalize named, fun l => (mem_normalize l).trans (hsame l)⟩

theorem ofAnswer_arr_eq {items items' : List Json} (hobject : ∀ v ∈ items, ∃ members, v = .obj members)
    (hmem : ∀ v, v ∈ items ↔ v ∈ items') : ofAnswer (.arr items) = ofAnswer (.arr items') := by
  have hobject' : ∀ v ∈ items', ∃ members, v = .obj members := by simpa only [← hmem] using hobject
  cases h : ofAnswer (.arr items) with
  | ok ls => exact (ofAnswer_of_mem_iff hobject hmem h).symm
  | error e =>
    cases h' : ofAnswer (.arr items') with
    | ok ls =>
      rw [ofAnswer_of_mem_iff hobject' (fun v => (hmem v).symm) h'] at h
      cases h
    | error e' => rw [eq_noVariant_of_ofAnswer h, eq_noVariant_of_ofAnswer h']

theorem ofAnswer_singleton {members : List (String × Json)} (h : ofAnswer (.obj members) = .ok ls) :
    ofAnswer (.arr [.obj members]) = .ok ls := by
  rw [ofAnswer_eq_ok_iff] at h ⊢
  obtain ⟨spots, hspots, hls⟩ := h
  cases hspots with
  | one hs => exact ⟨_, .many (.cons hs .nil), hls⟩

/-- An answer comes back as what it names, in strictly ascending order. Of an array of objects it does not matter in
which order and how often it has them, nor does it matter whether a location is in an array or alone. -/
theorem ofAnswer_ascends :
    (∀ v ls, ofAnswer v = .ok ls ↔ ∃ spots, Wire.Names v spots ∧ Ascends ls spots) ∧
      (∀ v ls, ofAnswer v = .ok ls → ls.Nodup) ∧
      (∀ items items', (∀ v ∈ items, ∃ members, v = .obj members) → (∀ v, v ∈ items ↔ v ∈ items') →
        ofAnswer (.arr items) = ofAnswer (.arr items')) ∧
      ∀ members ls, ofAnswer (.obj members) = .ok ls → ofAnswer (.arr [.obj members]) = .ok ls := by
  refine ⟨fun v ls => ofAnswer_eq_ok_iff, fun v ls h => ?_, fun items items' => ofAnswer_arr_eq,
    fun members ls => ofAnswer_singleton⟩
  obtain ⟨spots, -, hls⟩ := ofAnswer_eq_ok_iff.mp h
  exact hls.nodup

def lineStart (uri : String) (line : Nat) : Wire.Spot :=
  ⟨uri, ⟨⟨line, 0⟩, ⟨line, 0⟩⟩⟩

def membersOf (s : Wire.Spot) : List (String × Json) :=
  Table.ofList [("uri", .str s.uri), ("range", s.range.toJson)]

theorem isLocation_lineStart {uri : String} {line : Nat} (h : line ≤ maxCoordinate) :
    Wire.IsLocation (.obj (membersOf (lineStart uri line))) (lineStart uri line) := by
  have huri : Table.get? "uri" (membersOf (lineStart uri line)) = some (.str uri) := by
    simp [membersOf, lineStart, Table.ofList]
  have hrange : Table.get? "range" (membersOf (lineStart uri line)) = some (lineStart uri line).range.toJson := by
    simp [membersOf, Table.ofList]
  have hfits : Wire.Position.Fits ⟨line, 0⟩ := ⟨h, Nat.zero_le _⟩
  exact .object huri rfl hrange (Wire.Range.decode_toJson hfits hfits)

/-- The last two lines that can be written down are one line for the callers. -/
theorem ofAnswer_ascends_lastLines :
    let a := .obj (membersOf (lineStart "file:///a" (maxCoordinate - 1)))
    let a' := .obj (membersOf (lineStart "file:///a" maxCoordinate))
    let b := .obj (membersOf (lineStart "file:///b" 0))
    let place := fun uri line => Location.mk uri ⟨⟨line, 1⟩, ⟨line, 1⟩⟩
    ofAnswer (.arr [b, a', a]) = .ok [place "file:///a" maxCoordinate, place "file:///b" 1] ∧
      [place "file:///a" maxCoordinate, place "file:///b" 1].Nodup ∧
      ofAnswer (.arr [a, b, b, a']) = ofAnswer (.arr [b, a', a]) ∧
      ofAnswer b = .ok [place "file:///b" 1] ∧ ofAnswer (.arr [b]) = .ok [place "file:///b" 1] := by
  intro a a' b place
  obtain ⟨hok, hnodup, hsame, hsingle⟩ := ofAnswer_ascends
  have ha : Wire.IsLocation a _ := isLocation_lineStart (by decide)
  have ha' : Wire.IsLocation a' _ := isLocation_lineStart (by decide)
  have hb : Wire.IsLocation b _ := isLocation_lineStart (by decide)
  have hmany : ofAnswer (.arr [b, a', a]) = .ok [place "file:///a" maxCoordinate, place "file:///b" 1] := by
    refine (hok _ _).mpr ⟨_, .many (.cons hb (.cons ha' (.cons ha .nil))), by decide, fun l => ?_⟩
    have hfirst : (lineStart "file:///b" 0).oneIndexed = place "file:///b" 1 := by decide
    have hlast : (lineStart "file:///a" maxCoordinate).oneIndexed = place "file:///a" maxCoordinate := by decide
    have hlast' : (lineStart "file:///a" (maxCoordinate - 1)).oneIndexed = place "file:///a" maxCoordinate := by decide
    simp only [List.map_cons, List.map_nil, hfirst, hlast, hlast', List.mem_cons, List.not_mem_nil, or_false]
    tauto
  have hone : ofAnswer b = .ok [place "file:///b" 1] := (hok _ _).mpr ⟨_, .one hb, by simp, fun l => by rfl⟩
  refine ⟨hmany, hnodup _ _ hmany, hsame _ _ (by simp [a, a', b]) (fun v => ?_), hone, hsingle _ _ hone⟩
  simp only [List.mem_cons, List.not_mem_nil, or_false]
  tauto

end Location

end Liaison
