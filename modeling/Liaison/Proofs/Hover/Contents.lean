import Liaison.Answer.Hover
import Liaison.Proofs.Json.Decode

/-!
# What a hover says

A list of marked strings becomes the parts that are not blank, and the other forms of contents say what such a list
would. A hover that is told of is never blank.
-/

namespace Liaison

/-! ## What an answer says -/

namespace Wire

/-- The value is a marked string: a text, or an object with a language and a text in it. -/
inductive IsMarked : Json → MarkedString → Prop
  | plain {text : String} : IsMarked (.str text) (.plain text)
  | code {members : List (String × Json)} {language value : String}
    (hl : Table.get? "language" members = some (.str language)) (hv : Table.get? "value" members = some (.str value)) :
    IsMarked (.obj members) (.code language value)

/-- The value is a markup text: an object with a kind and a text. -/
inductive IsMarkup : Json → String → String → Prop
  | object {members : List (String × Json)} {kind value : String}
    (hk : Table.get? "kind" members = some (.str kind)) (hv : Table.get? "value" members = some (.str value)) :
    IsMarkup (.obj members) kind value

/-- The value is a hover: an object with contents and perhaps a range, or these in an array. -/
inductive IsHover : Json → Json → Option Range → Prop
  | object {members : List (String × Json)} {contents : Json} {range : Option Range}
    (hc : Table.get? "contents" members = some contents)
    (hr : Decoder.IsOptional Range.decode (Table.get? "range" members) range) : IsHover (.obj members) contents range
  | array {contents : Json} {rest : List Json} {range : Option Range} (hl : rest.length ≤ 1)
    (hr : Decoder.IsOptional Range.decode rest.head? range) : IsHover (.arr (contents :: rest)) contents range

/-- The second array is the first one with blank texts put in. -/
inductive Pads : List Json → List Json → Prop
  | nil : Pads [] []
  | keep {items items' : List Json} (v : Json) (h : Pads items items') : Pads (v :: items) (v :: items')
  | blank {items items' : List Json} {s : String} (hs : HoverContents.isBlank s = true) (h : Pads items items') :
    Pads items (.str s :: items')

end Wire

open Wire (IsMarked IsMarkup IsHover Pads)

variable {v contents : Json} {items items' : List Json} {m : MarkedString} {ms ms' : List MarkedString}
  {range : Option Wire.Range} {c c' : HoverContents}

/-! ## Decoding -/

theorem not_isMarkup {members : List (String × Json)} (h : Table.get? "kind" members = none) (kind value : String) :
    ¬ IsMarkup (.obj members) kind value := by
  rintro ⟨hk, -⟩
  rw [h] at hk
  cases hk

theorem MarkedString.decode_eq_ok_iff : MarkedString.decode v = .ok m ↔ IsMarked v m := by
  unfold MarkedString.decode
  simp only [Decoder.oneOf_cons_eq_ok_iff, Decoder.oneOf_nil_ne_ok, and_false, or_false, Decoder.as_eq_ok_iff,
    string_eq_ok_iff, Record.object_eq_ok_iff, Record.find_seq_iff, Record.find_map_iff, Record.find_field_iff]
  constructor
  · rintro (⟨text, rfl, rfl⟩ | ⟨-, members, rfl, _, value, ⟨language, ⟨_, hl, rfl⟩, rfl⟩, ⟨_, hv, rfl⟩, rfl⟩)
    · exact .plain
    · exact .code hl hv
  · rintro (_ | ⟨hl, hv⟩)
    · exact .inl ⟨_, rfl, rfl⟩
    · refine .inr ⟨?_, _, rfl, _, _, ⟨_, ⟨_, hl, rfl⟩, rfl⟩, ⟨_, hv, rfl⟩, rfl⟩
      rintro _ ⟨_, ⟨⟩, -⟩

namespace HoverContents

theorem decode_of_isMarkup {kind value : String} (h : IsMarkup v kind value) : decode v = .ok (.markup kind value) := by
  cases h with
  | object hk hv =>
    rw [decode, Decoder.oneOf_cons_eq_ok_iff, Record.object_eq_ok_iff]
    simp only [Record.find_seq_iff, Record.find_map_iff, Record.find_field_iff, string_eq_ok_iff]
    exact .inl ⟨_, rfl, _, _, ⟨_, ⟨_, hk, rfl⟩, rfl⟩, ⟨_, hv, rfl⟩, rfl⟩

theorem decode_of_isMarked (h : IsMarked v m) (hnot : ∀ kind value, ¬ IsMarkup v kind value) :
    decode v = .ok (.single m) := by
  rw [decode, Decoder.oneOf_cons_eq_ok_iff]
  refine .inr ⟨fun c hc => ?_, ?_⟩
  · simp only [Record.object_eq_ok_iff, Record.find_seq_iff, Record.find_map_iff, Record.find_field_iff,
      string_eq_ok_iff] at hc
    obtain ⟨members, rfl, _, value, ⟨kind, ⟨_, hk, rfl⟩, rfl⟩, ⟨_, hv, rfl⟩, rfl⟩ := hc
    exact hnot _ _ (.object hk hv)
  · rw [Decoder.oneOf_cons_eq_ok_iff, Decoder.as_eq_ok_iff]
    exact .inl ⟨m, MarkedString.decode_eq_ok_iff.mpr h, rfl⟩

theorem decode_arr_eq_ok_iff : decode (.arr items) = .ok c ↔ ∃ ms, List.Forall₂ IsMarked items ms ∧ c = .many ms := by
  have hsingle : ∀ c, Decoder.as single MarkedString.decode (.arr items) ≠ .ok c := by
    intro c hc
    obtain ⟨m, hm, -⟩ := Decoder.as_eq_ok_iff.mp hc
    cases MarkedString.decode_eq_ok_iff.mp hm
  have hmany : Decoder.as many (.list MarkedString.decode) (.arr items) = .ok c ↔
      ∃ ms, List.Forall₂ IsMarked items ms ∧ c = .many ms := by
    simp only [Decoder.as_eq_ok_iff, Decoder.list_eq_ok_iff, MarkedString.decode_eq_ok_iff, Json.arr.injEq]
    simp [eq_comm]
  rw [decode, Decoder.oneOf_cons_eq_ok_iff, Decoder.oneOf_cons_eq_ok_iff, Decoder.oneOf_cons_eq_ok_iff, ← hmany]
  constructor
  · rintro (hmarkup | ⟨-, hone | ⟨-, h | ⟨-, hnone⟩⟩⟩)
    · cases hmarkup
    · exact absurd hone (hsingle c)
    · exact h
    · exact absurd hnone Decoder.oneOf_nil_ne_ok
  · exact fun h => .inr ⟨nofun, .inr ⟨hsingle, .inl h⟩⟩

/-! ## Texts -/

theorem isBlank_append (s t : String) : isBlank (s ++ t) = (isBlank s && isBlank t) := by
  simp [isBlank, isBlankText]

/-- The line that parts are set apart by is blank, so only the parts matter. -/
theorem isBlank_intercalate (parts : List String) : isBlank ("\n\n".intercalate parts) = parts.all isBlank := by
  induction parts with
  | nil => rfl
  | cons part parts ih =>
    cases parts with
    | nil => simp
    | cons next parts =>
      rw [String.intercalate_cons_cons, isBlank_append, isBlank_append, ih, List.all_cons]
      simp [show isBlank "\n\n" = true from rfl]

theorem isBlank_text_many : isBlank (many ms).text = true ↔ ∀ m ∈ ms, isBlank m.render = true := by
  rw [text, isBlank_intercalate]
  simp

theorem ofContents?_eq (h : c.text = c'.text ∨ isBlank c.text = true ∧ isBlank c'.text = true) :
    Hover.ofContents? c range = Hover.ofContents? c' range := by
  unfold Hover.ofContents?
  rcases h with h | ⟨h, h'⟩
  · rw [h]
  · rw [h, h']
    rfl

theorem text_single (m : MarkedString) : (single m).text = (many [m]).text ∨
    isBlank (single m).text = true ∧ isBlank (many [m]).text = true := by
  by_cases hm : isBlank m.render = true
  · refine .inr ⟨hm, isBlank_text_many.mpr (by simpa using hm)⟩
  · left
    simp [text, hm]

end HoverContents

/-! ## Answers -/

namespace Hover

theorem wireHover_eq_ok (h : IsHover v contents range) (hc : HoverContents.decode contents = .ok c) :
    Wire.hover v = .ok (some (c, range)) := by
  unfold Wire.hover
  cases h with
  | object hcontents hr =>
    refine congrArg (Except.map some) (Record.decode_obj_iff.mpr ?_)
    simp only [Record.find_seq_iff, Record.find_map_iff, Record.find_field_iff, Record.find_fieldOpt_iff]
    exact ⟨_, range, ⟨c, ⟨_, hcontents, hc⟩, rfl⟩, hr, rfl⟩
  | @array _ rest _ hl hr =>
    refine congrArg (Except.map some) (Record.decode_arr_iff.mpr ?_)
    simp only [Record.ofItems, Record.take_seq_iff, Record.take_map_iff, Record.take_field_iff,
      Record.take_fieldOpt_iff]
    exact ⟨_, range, rest, ⟨c, ⟨_, rfl, hc⟩, rfl⟩, ⟨hr, List.eq_nil_of_length_eq_zero (by simp; omega)⟩, rfl⟩

theorem wireHover_eq_error {e : DecodeError} (h : IsHover v contents range)
    (hc : HoverContents.decode contents = .error e) : Wire.hover v = .error e := by
  unfold Wire.hover
  cases h with
  | object hcontents hr =>
    exact congrArg (Except.map some) (Record.decode_obj_bad (Record.find_seq_bad
      (Record.find_map_bad _ (Record.find_field_bad hcontents hc)) (Record.find_fieldOpt_iff.mpr hr)))
  | array =>
    exact congrArg (Except.map some) (Record.decode_arr_error fun _ _ =>
      Record.take_seq_error (Record.take_map_error _ (Record.take_field_error hc)))

theorem ofAnswer_of_isHover (h : IsHover v contents range) :
    ofAnswer v = (HoverContents.decode contents).map (ofContents? · range) := by
  cases hc : HoverContents.decode contents with
  | ok c => rw [ofAnswer, wireHover_eq_ok h hc]; rfl
  | error e => rw [ofAnswer, wireHover_eq_error h hc]; rfl

theorem isBlank_of_ofAnswer {h : Hover} (ha : ofAnswer v = .ok (some h)) :
    HoverContents.isBlank h.contents = false := by
  unfold ofAnswer at ha
  cases hv : Wire.hover v with
  | error e =>
    rw [hv] at ha
    cases ha
  | ok found =>
    rw [hv] at ha
    cases found with
    | none => cases ha
    | some found =>
      have hsome : ofContents? found.1 found.2 = some h := Except.ok.inj ha
      unfold ofContents? at hsome
      split at hsome
      · cases hsome
      · cases hsome
        simpa using ‹¬ HoverContents.isBlank found.1.text = true›

/-! ## Lists of marked strings -/

theorem ofAnswer_of_marked (h : IsHover v (.arr items) range) (hms : List.Forall₂ IsMarked items ms) :
    ofAnswer v = .ok (ofContents? (.many ms) range) := by
  rw [ofAnswer_of_isHover h, HoverContents.decode_arr_eq_ok_iff.mpr ⟨ms, hms, rfl⟩]
  rfl

theorem ofContents?_many_eq_none_iff :
    ofContents? (.many ms) range = none ↔ ∀ m ∈ ms, HoverContents.isBlank m.render = true := by
  rw [← HoverContents.isBlank_text_many, ofContents?]
  split <;> simp_all

theorem marked_of_pads (h : Pads items items') (hms : List.Forall₂ IsMarked items ms) :
    ∃ ms', List.Forall₂ IsMarked items' ms' ∧ (ms'.map MarkedString.render).filter (!HoverContents.isBlank ·) =
      (ms.map MarkedString.render).filter (!HoverContents.isBlank ·) := by
  induction h generalizing ms with
  | nil => exact ⟨ms, hms, rfl⟩
  | keep v _ ih =>
    cases hms with
    | @cons _ m _ _ hm hms =>
      obtain ⟨ms', hms', hsame⟩ := ih hms
      exact ⟨m :: ms', .cons hm hms', by rw [List.map_cons, List.map_cons, List.filter_cons, List.filter_cons, hsame]⟩
  | @blank _ _ s hs _ ih =>
    obtain ⟨ms', hms', hsame⟩ := ih hms
    refine ⟨.plain s :: ms', .cons .plain hms', ?_⟩
    rw [List.map_cons, List.filter_cons_of_neg (by simpa [MarkedString.render] using hs), hsame]

theorem marked_of_padded (h : Pads items items') (hms' : List.Forall₂ IsMarked items' ms') :
    ∃ ms, List.Forall₂ IsMarked items ms := by
  induction h generalizing ms' with
  | nil => exact ⟨ms', hms'⟩
  | keep v _ ih =>
    cases hms' with
    | cons hm hms' =>
      obtain ⟨ms, hms⟩ := ih hms'
      exact ⟨_ :: ms, .cons hm hms⟩
  | blank _ _ ih =>
    cases hms' with
    | cons _ hms' => exact ih hms'

/-- Blank texts in a list make no difference, not even if it is refused. -/
theorem ofAnswer_of_pads {v' : Json} (h : IsHover v (.arr items) range) (h' : IsHover v' (.arr items') range)
    (hpads : Pads items items') : ofAnswer v' = ofAnswer v := by
  rw [ofAnswer_of_isHover h, ofAnswer_of_isHover h']
  cases hc : HoverContents.decode (.arr items) with
  | ok c =>
    obtain ⟨ms, hms, rfl⟩ := HoverContents.decode_arr_eq_ok_iff.mp hc
    obtain ⟨ms', hms', hsame⟩ := marked_of_pads hpads hms
    rw [HoverContents.decode_arr_eq_ok_iff.mpr ⟨ms', hms', rfl⟩]
    have htext : (HoverContents.many ms').text = (HoverContents.many ms).text := by
      rw [HoverContents.text, HoverContents.text, hsame]
    exact congrArg Except.ok (HoverContents.ofContents?_eq (.inl htext))
  | error e =>
    cases hc' : HoverContents.decode (.arr items') with
    | ok c' =>
      obtain ⟨ms', hms', -⟩ := HoverContents.decode_arr_eq_ok_iff.mp hc'
      obtain ⟨ms, hms⟩ := marked_of_padded hpads hms'
      rw [HoverContents.decode_arr_eq_ok_iff.mpr ⟨ms, hms, rfl⟩] at hc
      cases hc
    | error e' => rw [Decoder.eq_noVariant_of_oneOf hc, Decoder.eq_noVariant_of_oneOf hc']

/-- A list of marked strings says what its parts say that are not blank, and nothing if all of them are. Blank texts put
into it change nothing. A marked string says what the list of it alone says, and a markup text what the text alone says.
No hover is blank. -/
theorem ofAnswer_laws :
    (∀ v items range ms, IsHover v (.arr items) range → List.Forall₂ IsMarked items ms →
      (ofAnswer v = .ok none ↔ ∀ m ∈ ms, HoverContents.isBlank m.render = true) ∧
      ((∃ m ∈ ms, HoverContents.isBlank m.render = false) → ofAnswer v = .ok (some
        ⟨"\n\n".intercalate ((ms.map MarkedString.render).filter (!HoverContents.isBlank ·)),
          range.map Wire.Range.toRange⟩))) ∧
    (∀ v v' items items' range, IsHover v (.arr items) range → IsHover v' (.arr items') range → Pads items items' →
      ofAnswer v' = ofAnswer v) ∧
    (∀ v v' item m range, IsMarked item m → (∀ kind value, ¬ IsMarkup item kind value) → IsHover v item range →
      IsHover v' (.arr [item]) range → ofAnswer v' = ofAnswer v) ∧
    (∀ v v' item kind value range, IsMarkup item kind value → IsHover v item range → IsHover v' (.str value) range →
      ofAnswer v' = ofAnswer v) ∧
    ∀ v h, ofAnswer v = .ok (some h) → HoverContents.isBlank h.contents = false := by
  refine ⟨fun v items range ms h hms => ⟨?_, ?_⟩, fun v v' items items' range => ofAnswer_of_pads, ?_, ?_,
    fun v h => isBlank_of_ofAnswer⟩
  · rw [ofAnswer_of_marked h hms, Except.ok.injEq, ofContents?_many_eq_none_iff]
  · rintro ⟨m, hm, hblank⟩
    have hnot : ¬ HoverContents.isBlank (HoverContents.many ms).text = true := by
      intro hall
      rw [HoverContents.isBlank_text_many.mp hall m hm] at hblank
      cases hblank
    rw [ofAnswer_of_marked h hms, ofContents?, if_neg hnot]
    rfl
  · intro v v' item m range hm hnot h h'
    rw [ofAnswer_of_isHover h, ofAnswer_of_marked h' (.cons hm .nil), HoverContents.decode_of_isMarked hm hnot]
    exact congrArg Except.ok (HoverContents.ofContents?_eq (HoverContents.text_single m)).symm
  · intro v v' item kind value range hmarkup h h'
    have hplain : HoverContents.decode (.str value) = .ok (.single (.plain value)) :=
      HoverContents.decode_of_isMarked .plain nofun
    rw [ofAnswer_of_isHover h, ofAnswer_of_isHover h', hplain, HoverContents.decode_of_isMarkup hmarkup]
    rfl

def saying (contents : Json) : Json :=
  .obj [("contents", contents)]

theorem isHover_saying (contents : Json) : IsHover (saying contents) contents none :=
  .object rfl .absent

theorem ofAnswer_laws_fenced :
    let code := Json.obj [("language", .str "rust"), ("value", .str "fn x()")]
    ofAnswer (saying (.arr [.str "\u00a0", code, .str "text"])) =
        .ok (some ⟨"```rust\nfn x()\n```\n\ntext", none⟩) ∧
      ofAnswer (saying (.arr [.str " \t", .str ""])) = .ok none ∧
      ofAnswer (saying (.arr [code, .str "\n", .str "text"])) = ofAnswer (saying (.arr [code, .str "text"])) ∧
      ofAnswer (saying (.arr [code])) = ofAnswer (saying code) ∧
      ofAnswer (saying (.str " ")) = ofAnswer (saying (.obj [("kind", .str "markdown"), ("value", .str " ")])) := by
  intro code
  obtain ⟨hlist, hpads, hsingle, hmarkup, -⟩ := ofAnswer_laws
  have hcode : IsMarked code (.code "rust" "fn x()") := .code rfl rfl
  have hnot : ∀ kind value, ¬ IsMarkup code kind value := not_isMarkup rfl
  refine ⟨?_, ?_, ?_, hsingle _ _ _ _ _ hcode hnot (isHover_saying _) (isHover_saying _),
    hmarkup _ _ _ _ _ _ (.object rfl rfl) (isHover_saying _) (isHover_saying _)⟩
  · have hms : List.Forall₂ IsMarked [.str "\u00a0", code, .str "text"]
        [.plain "\u00a0", .code "rust" "fn x()", .plain "text"] := .cons .plain (.cons hcode (.cons .plain .nil))
    rw [(hlist _ _ _ _ (isHover_saying _) hms).2 (by decide +kernel)]
    decide +kernel
  · have hms : List.Forall₂ IsMarked [.str " \t", .str ""] [.plain " \t", .plain ""] :=
      .cons .plain (.cons .plain .nil)
    exact (hlist _ _ _ _ (isHover_saying _) hms).1.mpr (by decide +kernel)
  · exact hpads _ _ _ _ _ (isHover_saying _) (isHover_saying _)
      (.keep _ (.blank (by decide +kernel) (.keep _ .nil)))

end Hover

end Liaison
