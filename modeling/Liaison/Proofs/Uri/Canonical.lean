import Liaison.Proofs.File.Path
import Liaison.Proofs.Uri.Percent
import Liaison.Session.Options

/-!
# Canonical URIs of files

The URI of a file is written from the names of its path. Reading it gives the same URI again, and the same names, unless
one of them leads upwards: reading resolves such a name, writing does not.
-/

namespace Liaison

namespace Uri

variable {p : Path} {n : Bytes} {ms ns : List Bytes} {s : PathState} {last : Bool} {c : Char} {cs : List Char}
  {segs : List (List Char)}

def ofNames (ns : List Bytes) : Uri :=
  ⟨"file".toList, some ⟨[], none, [], none⟩, .names (ns.map ofName), none, none⟩

/-- The URI is written as it is written again once it has been read by the given rule. -/
def IsCanonical (r : BarRule) (uri : String) : Prop :=
  (parseBy? r uri.toList).map Uri.text = some uri.toList

/-- A letter and a bar, which the standard takes for a drive at the start of a path. -/
def isBarred : Bytes → Bool
  | [b, 0x7C] => (Char.ofNat b.toNat).isAlpha
  | _ => false

/-- Reading by the rule leaves the first name as it is. -/
def BarRule.Spares (r : BarRule) (ns : List Bytes) : Prop :=
  r = .standard → ns.head?.any isBarred = false

/-! ## Dots -/

theorem plainDots_cons (hc : c ≠ '%') (cs : List Char) : plainDots (c :: cs) = c :: plainDots cs := by
  rw [plainDots]
  rintro _ _ rfl
  exact absurd rfl hc

theorem ofNat_digit_ne {x : Nat} (h : x < 16) : Char.ofNat (Percent.digit x).toNat ≠ '%' := by
  revert x
  decide

/-- An encoded byte is not taken for a dot, unless it is one. -/
theorem plainDots_escape {x y : Nat} (hx : x < 16) (hy : y < 16) (hdot : ¬ (x = 2 ∧ y = 14))
    (hcs : plainDots cs = cs) :
    plainDots ('%' :: Char.ofNat (Percent.digit x).toNat :: Char.ofNat (Percent.digit y).toNat :: cs) =
      '%' :: Char.ofNat (Percent.digit x).toNat :: Char.ofNat (Percent.digit y).toNat :: cs := by
  by_cases hx2 : x = 2
  · subst hx2
    have hy14 : y ≠ 14 := fun h => hdot ⟨rfl, h⟩
    have hne : ∀ y < 16, y ≠ 14 → ¬ (Char.ofNat (Percent.digit y).toNat = 'e' ∨
        Char.ofNat (Percent.digit y).toNat = 'E') := by decide
    exact if_neg (hne y hy hy14)
  · have hne : ∀ x < 16, x ≠ 2 → Char.ofNat (Percent.digit x).toNat ≠ '2' := by decide
    rw [plainDots, plainDots_cons (ofNat_digit_ne hx), plainDots_cons (ofNat_digit_ne hy), hcs]
    rintro _ _ - h
    exact hne x hx hx2 (List.cons.inj h).1

theorem ofName_cons (b : UInt8) (n : Bytes) :
    ofName (b :: n) = (Percent.encodeByte Percent.inName b).map (fun b => Char.ofNat b.toNat) ++ ofName n := by
  rw [ofName, Percent.encode, List.flatMap_cons, List.map_append]
  rfl

theorem plainDots_ofName (n : Bytes) : plainDots (ofName n) = ofName n := by
  induction n with
  | nil => rfl
  | cons b n ih =>
    have hlt := b.toNat_lt
    rw [ofName_cons, Percent.encodeByte]
    split
    · rename_i hb
      have hne : Char.ofNat b.toNat ≠ '%' := by
        intro he
        have hnat := Utf8.toNat_ofNat_byte b
        rw [he] at hnat
        have hpercent : b = 0x25 := UInt8.toNat_inj.mp hnat.symm
        rw [hpercent] at hb
        exact absurd hb (by decide)
      exact (plainDots_cons hne _).trans (congrArg _ ih)
    · rename_i hb
      refine plainDots_escape (by omega) (by omega) ?_ ih
      rintro ⟨hx, hy⟩
      have hdot : b = 0x2E := UInt8.toNat_inj.mp (show b.toNat = 0x2E by omega)
      exact hb (hdot ▸ by decide)

/-! ## Segments -/

theorem splitPath_ne_nil (k : SchemeKind) (cs : List Char) : splitPath k cs ≠ [] := by
  fun_cases splitPath k cs <;> simp_all

theorem splitPath_slash (cs : List Char) : splitPath .file ('/' :: cs) = [] :: splitPath .file cs := by
  rw [splitPath]
  cases hcs : splitPath .file cs with
  | nil => exact absurd hcs (splitPath_ne_nil _ cs)
  | cons => rfl

theorem splitPath_append (hc : ∀ c ∈ cs, c ≠ '/' ∧ c ≠ '\\') (more : List Char) {first : List Char}
    (hmore : splitPath .file more = first :: segs) : splitPath .file (cs ++ more) = (cs ++ first) :: segs := by
  induction cs with
  | nil => exact hmore
  | cons c cs ih =>
    obtain ⟨⟨hslash, hback⟩, hcs⟩ := List.forall_mem_cons.mp hc
    rw [List.cons_append, splitPath, ih hcs]
    simp [SchemeKind.isSlash, hslash, hback]

theorem splitPath_flatMap (ns : List Bytes) :
    splitPath .file ((ns.map ofName).flatMap ('/' :: ·)) = [] :: ns.map ofName := by
  induction ns with
  | nil => rfl
  | cons n ns ih =>
    have hn : ∀ c ∈ ofName n, c ≠ '/' ∧ c ≠ '\\' := fun c hc =>
      ⟨(mem_ofName hc).2 _ (by simp), (mem_ofName hc).2 _ (by simp)⟩
    rw [List.map_cons, List.flatMap_cons, List.cons_append, splitPath_slash, splitPath_append hn _ ih, List.append_nil]

theorem text_ofNames (ns : List Bytes) :
    (ofNames ns).text = "file://".toList ++ (ns.map ofName).flatMap ('/' :: ·) := by
  simp [ofNames, text, Authority.text, UriPath.text, marked]

theorem ofNames_of_text (h : (ofNames ms).text = (ofNames ns).text) : ms = ns := by
  rw [text_ofNames, text_ofNames, List.append_cancel_left_eq] at h
  have hsplit := splitPath_flatMap ms
  rw [h, splitPath_flatMap, List.cons.injEq] at hsplit
  exact (List.map_injective_iff.mpr ofName_injective hsplit.2).symm

def LeadDown (ms : List Bytes) : Prop :=
  ∀ m ∈ ms, Path.slash ∉ m ∧ m ≠ Path.dotDot

theorem ofName_pair {b d : UInt8} (hb : (Char.ofNat b.toNat).isAlpha = true) (hd : d = 0x3A ∨ d = 0x7C) :
    ofName [b, d] = [Char.ofNat b.toNat, Char.ofNat d.toNat] ∧ b ≠ Path.slash ∧ b ≠ 0x2E := by
  have hall : ∀ x < 256, (Char.ofNat x).isAlpha = true → ofName [x.toUInt8, 0x3A] = [Char.ofNat x, ':'] ∧
      ofName [x.toUInt8, 0x7C] = [Char.ofNat x, '|'] ∧ x.toUInt8 ≠ Path.slash ∧ x.toUInt8 ≠ 0x2E := by decide +kernel
  obtain ⟨hcolon, hbar, hne⟩ := hall b.toNat b.toNat_lt hb
  rw [Utf8.toUInt8_eq rfl] at hcolon hbar hne
  rcases hd with rfl | rfl
  · exact ⟨hcolon, hne⟩
  · exact ⟨hbar, hne⟩

/-- A name that reads as a drive letter is a letter with a colon or a bar. -/
theorem exists_of_isDriveLetter (h : isDriveLetter (ofName n) = true) :
    ∃ b d, n = [b, d] ∧ (Char.ofNat b.toNat).isAlpha = true ∧ (d = 0x3A ∨ d = 0x7C) := by
  unfold isDriveLetter at h
  split at h
  · rename_i c d hname
    obtain ⟨b, -, rfl⟩ := List.mem_map.mp (show c ∈ ofName n by simp [hname])
    obtain ⟨hb, hd⟩ := Bool.and_eq_true_iff.mp h
    rw [Bool.or_eq_true, decide_eq_true_eq, decide_eq_true_eq] at hd
    rcases hd with rfl | rfl
    · exact ⟨b, 0x3A, ofName_injective (hname.trans (ofName_pair hb (.inl rfl)).1.symm), hb, .inl rfl⟩
    · exact ⟨b, 0x7C, ofName_injective (hname.trans (ofName_pair hb (.inr rfl)).1.symm), hb, .inr rfl⟩
  · cases h

/-- A name without dots is added as it is, a drive letter with a colon too. -/
theorem segment_of_plain (hs : s.segments = [] → isBarred n = false) (hdot : n ≠ Path.dot) (hdots : n ≠ Path.dotDot) :
    (s.segment .file (ofName n) last).segments = s.segments ++ [ofName n] := by
  have h1 : plainDots (ofName n) ≠ ['.'] := fun h => hdot (ofName_injective (plainDots_ofName n ▸ h))
  have h2 : plainDots (ofName n) ≠ ['.', '.'] := fun h => hdots (ofName_injective (plainDots_ofName n ▸ h))
  rw [PathState.segment, if_neg h2, if_neg h1]
  split
  · rename_i hdrive
    have hempty : s.segments = [] := List.isEmpty_iff.mp hdrive.2.1
    obtain ⟨b, d, rfl, hb, rfl | rfl⟩ := exists_of_isDriveLetter hdrive.2.2
    · rw [hempty, (ofName_pair hb (.inl rfl)).1]
      rfl
    · exact absurd hb (Bool.not_eq_true _ ▸ hs hempty)
  · rw [encode_inPath_ofName]

theorem segment_of_isBarred {b : UInt8} (hs : s.segments = []) (hb : (Char.ofNat b.toNat).isAlpha = true) :
    (s.segment .file (ofName [b, 0x7C]) last).segments = [ofName [b, 0x3A]] := by
  have h1 : plainDots (ofName [b, 0x7C]) ≠ ['.'] := by
    rw [plainDots_ofName, (ofName_pair hb (.inr rfl)).1]
    simp
  have h2 : plainDots (ofName [b, 0x7C]) ≠ ['.', '.'] := by
    rw [plainDots_ofName, (ofName_pair hb (.inr rfl)).1]
    simp
  have hdrive : isDriveLetter (ofName [b, 0x7C]) = true := by
    rw [(ofName_pair hb (.inr rfl)).1]
    simpa [isDriveLetter] using hb
  rw [PathState.segment, if_neg h2, if_neg h1, if_pos ⟨rfl, List.isEmpty_iff.mpr hs, hdrive⟩,
    (ofName_pair hb (.inl rfl)).1, (ofName_pair hb (.inr rfl)).1]
  rfl

theorem exists_ofName_of_isDriveLetter (h : isDriveLetter (ofName n) = true) :
    ∃ m, ofName m = [(ofName n).headD 'c', ':'] ∧ Path.slash ∉ m ∧ m ≠ Path.dotDot := by
  obtain ⟨b, d, rfl, hb, hd⟩ := exists_of_isDriveLetter h
  obtain ⟨hcolon, hslash, hdot⟩ := ofName_pair hb (.inl rfl : (0x3A : UInt8) = 0x3A ∨ _)
  refine ⟨[b, 0x3A], ?_, ?_, ?_⟩
  · rw [hcolon, (ofName_pair hb hd).1]
    rfl
  · simp [Path.slash] at hslash ⊢
    exact Ne.symm hslash
  · rintro h
    exact hdot (List.cons.inj h).1

/-- A path that ends with a name for its directory ends with an empty segment. -/
theorem LeadDown.closed (h : LeadDown ms) (last : Bool) :
    ∃ ms', ms.map ofName ++ (if last then [[]] else []) = ms'.map ofName ∧ LeadDown ms' ∧ (last = true → ms' ≠ []) := by
  cases last with
  | false => exact ⟨ms, List.append_nil _, h, nofun⟩
  | true =>
    have hempty : LeadDown [[]] := by simp [LeadDown, Path.dotDot]
    refine ⟨ms ++ [[]], ?_, List.forall_mem_append.mpr ⟨h, hempty⟩, by simp⟩
    rw [List.map_append]
    rfl

/-- A name that leads upwards takes the last segment off and leaves nothing of itself. -/
theorem segment_leadDown (last : Bool) (hs : s.segments = ms.map ofName) (hms : LeadDown ms) (hn : Path.slash ∉ n) :
    ∃ ms', (s.segment .file (ofName n) last).segments = ms'.map ofName ∧ LeadDown ms' ∧ (last = true → ms' ≠ []) := by
  rw [PathState.segment, hs]
  by_cases hdots : plainDots (ofName n) = ['.', '.']
  · have hdropped : LeadDown ms.dropLast := fun m hm => hms m (List.dropLast_subset ms hm)
    rw [if_pos hdots]
    cases (ms.map ofName).getLast? with
    | none =>
      have hnone : LeadDown [] := List.forall_mem_nil _
      exact hnone.closed last
    | some above =>
      by_cases hdrive : isDriveLetter above = true
      · simp only [if_pos hdrive]
        exact hms.closed last
      · simp only [if_neg hdrive, ← List.map_dropLast]
        exact hdropped.closed last
  rw [if_neg hdots]
  by_cases hdot : plainDots (ofName n) = ['.']
  · rw [if_pos hdot]
    exact hms.closed last
  rw [if_neg hdot]
  split
  · rename_i hdrive
    obtain ⟨m, hm, hslash, hne⟩ := exists_ofName_of_isDriveLetter hdrive.2.2
    exact ⟨[m], by rw [List.map_singleton, hm], List.forall_mem_singleton.mpr ⟨hslash, hne⟩, by simp⟩
  · have hne : n ≠ Path.dotDot := by
      rintro rfl
      exact hdots rfl
    refine ⟨ms ++ [n], ?_, List.forall_mem_append.mpr ⟨hms, List.forall_mem_singleton.mpr ⟨hn, hne⟩⟩, by simp⟩
    rw [encode_inPath_ofName, List.map_append, List.map_singleton]

theorem segments_leadDown (hne : ns ≠ []) (hns : ∀ n ∈ ns, Path.slash ∉ n) (hs : s.segments = ms.map ofName)
    (hms : LeadDown ms) :
    ∃ ms', (segments .file s (ns.map ofName)).segments = ms'.map ofName ∧ LeadDown ms' ∧ ms' ≠ [] := by
  induction ns generalizing s ms with
  | nil => exact absurd rfl hne
  | cons n ns ih =>
    obtain ⟨hn, hns⟩ := List.forall_mem_cons.mp hns
    cases ns with
    | nil =>
      obtain ⟨ms', hms', hdown, hlast⟩ := segment_leadDown true hs hms hn
      exact ⟨ms', hms', hdown, hlast rfl⟩
    | cons n' ns =>
      obtain ⟨ms', hms', hdown, -⟩ := segment_leadDown false hs hms hn
      exact ih (by simp) hns hms' hdown

theorem segments_of_plain (hs : s.segments = [] → ns.head?.any isBarred = false)
    (h : ∀ n ∈ ns, n ≠ Path.dot ∧ n ≠ Path.dotDot) :
    (segments .file s (ns.map ofName)).segments = s.segments ++ ns.map ofName := by
  induction ns generalizing s with
  | nil => simp [segments]
  | cons n ns ih =>
    obtain ⟨⟨hdot, hdots⟩, hns⟩ := List.forall_mem_cons.mp h
    cases ns with
    | nil => exact segment_of_plain hs hdot hdots
    | cons n' ns =>
      have hfirst : (s.segment .file (ofName n) false).segments = s.segments ++ [ofName n] :=
        segment_of_plain hs hdot hdots
      rw [List.map_cons, List.map_cons, segments, ← List.map_cons, ih (by simp [hfirst]) hns, hfirst]
      simp

theorem segments_of_isBarred {b : UInt8} (hs : s.segments = []) (hb : (Char.ofNat b.toNat).isAlpha = true)
    (h : ∀ n ∈ ns, n ≠ Path.dot ∧ n ≠ Path.dotDot) :
    (segments .file s (([b, 0x7C] :: ns).map ofName)).segments = ([b, 0x3A] :: ns).map ofName := by
  cases ns with
  | nil => exact segment_of_isBarred hs hb
  | cons n ns =>
    have hfirst : (s.segment .file (ofName [b, 0x7C]) false).segments = [ofName [b, 0x3A]] := segment_of_isBarred hs hb
    rw [List.map_cons, List.map_cons, segments, ← List.map_cons, segments_of_plain (by simp [hfirst]) h, hfirst]
    rfl

theorem dropEmptyNames_suffix (segs : List (List Char)) : dropEmptyNames segs <:+ segs := by
  fun_induction dropEmptyNames segs with
  | case1 n rest ih => exact ih.trans (List.suffix_cons ..)
  | case2 => exact List.suffix_rfl

theorem dropEmptyNames_ne_nil (hne : segs ≠ []) : dropEmptyNames segs ≠ [] := by
  fun_induction dropEmptyNames segs with
  | case1 n rest ih => exact ih (by simp)
  | case2 => exact hne

theorem dropEmptyNames_of_plain (hempty : segs = [[]] ∨ [] ∉ segs) : dropEmptyNames segs = segs := by
  rcases hempty with rfl | hempty
  · rfl
  · fun_cases dropEmptyNames segs with
    | case1 => exact absurd List.mem_cons_self hempty
    | case2 => rfl

theorem dropEmptyNames_nil_cons (hne : segs ≠ []) (hempty : segs = [[]] ∨ [] ∉ segs) :
    dropEmptyNames ([] :: segs) = segs := by
  cases segs with
  | nil => exact absurd rfl hne
  | cons => exact dropEmptyNames_of_plain hempty

/-! ## Reading -/

/-- The segments that stand before the first name: the slash counts where a bar is kept. -/
def BarRule.start : BarRule → List Bytes
  | standard => []
  | kept => [[]]

theorem readPath_names (r : BarRule) (hne : ns ≠ []) :
    (r.readPath ((ns.map ofName).flatMap ('/' :: ·))).segments =
      dropEmptyNames (segments .file ⟨r.start.map ofName, false⟩ (ns.map ofName)).segments := by
  have hsplit := splitPath_flatMap ns
  cases ns with
  | nil => exact absurd rfl hne
  | cons n ns =>
    cases r with
    | standard =>
      rw [List.map_cons, List.flatMap_cons, List.cons_append, splitPath_slash, List.cons.injEq] at hsplit
      rw [List.map_cons, List.flatMap_cons, List.cons_append, BarRule.readPath, List.drop_succ_cons, List.drop_zero,
        readPath, hsplit.2]
      rfl
    | kept =>
      rw [BarRule.readPath, readPath, hsplit]
      rfl

theorem readPath_leadDown (r : BarRule) (hne : ns ≠ []) (hns : ∀ n ∈ ns, Path.slash ∉ n) :
    ∃ ms, (r.readPath ((ns.map ofName).flatMap ('/' :: ·))).segments = ms.map ofName ∧ LeadDown ms ∧ ms ≠ [] := by
  have hstart : LeadDown r.start := by cases r <;> simp [BarRule.start, LeadDown, Path.dotDot]
  obtain ⟨ms, hms, hdown, hmsNe⟩ := segments_leadDown (s := ⟨r.start.map ofName, false⟩) hne hns rfl hstart
  obtain ⟨dropped, hdropped⟩ := dropEmptyNames_suffix (ms.map ofName)
  obtain ⟨_, kept, rfl, -, hkept⟩ := List.append_eq_map_iff.mp hdropped
  refine ⟨kept, ?_, fun m hm => hdown m (List.mem_append_right _ hm), ?_⟩
  · rw [readPath_names r hne, hms, hkept]
  · rintro rfl
    exact dropEmptyNames_ne_nil (by simpa using hmsNe) hkept.symm

theorem readPath_of_plain (r : BarRule) (hne : ns ≠ []) (hspares : r.Spares ns)
    (hns : ∀ n ∈ ns, n ≠ Path.dot ∧ n ≠ Path.dotDot) (hempty : ns = [[]] ∨ [] ∉ ns) :
    (r.readPath ((ns.map ofName).flatMap ('/' :: ·))).segments = ns.map ofName := by
  have hfirst : r.start.map ofName = [] → ns.head?.any isBarred = false := by
    intro hstart
    cases r with
    | standard => exact hspares rfl
    | kept => cases hstart
  have hempty' : ns.map ofName = [[]] ∨ [] ∉ ns.map ofName := by
    rcases hempty with rfl | hempty
    · exact .inl rfl
    · refine .inr fun hmem => ?_
      obtain ⟨n, hn, hname⟩ := List.mem_map.mp hmem
      exact hempty (ofName_injective (hname.trans rfl : ofName n = ofName []) ▸ hn)
  have hne' : ns.map ofName ≠ [] := by simpa using hne
  rw [readPath_names r hne, segments_of_plain hfirst hns]
  cases r with
  | standard => exact dropEmptyNames_of_plain hempty'
  | kept => exact dropEmptyNames_nil_cons hne' hempty'

/-- By the standard a letter and a bar at the start become a drive letter. -/
theorem readPath_of_isBarred {b : UInt8} (hb : (Char.ofNat b.toNat).isAlpha = true)
    (hns : ∀ n ∈ ns, n ≠ Path.dot ∧ n ≠ Path.dotDot) :
    (BarRule.standard.readPath ((([b, 0x7C] :: ns).map ofName).flatMap ('/' :: ·))).segments =
      ([b, 0x3A] :: ns).map ofName := by
  rw [readPath_names _ (List.cons_ne_nil _ _), segments_of_isBarred rfl hb hns, List.map_cons,
    (ofName_pair hb (.inl rfl)).1]
  rfl

theorem prepare_eq_self (h : ∀ c ∈ cs, 0x20 < c.toNat) : prepare cs = cs := by
  have hdrop : ∀ ds : List Char, (∀ d ∈ ds, 0x20 < d.toNat) → ds.dropWhile isMargin = ds := by
    rintro (_ | ⟨d, ds⟩) hds
    · rfl
    · exact List.dropWhile_cons_of_neg (by simpa [isMargin] using hds d List.mem_cons_self)
  rw [prepare, hdrop cs h, hdrop cs.reverse (by simpa using h), List.reverse_reverse, List.filter_eq_self]
  intro c hc
  have hmargin := h c hc
  simp only [isIgnored, Bool.not_eq_true', Bool.or_eq_false_iff, decide_eq_false_iff_not]
  refine ⟨⟨?_, ?_⟩, ?_⟩ <;> (rintro rfl; exact absurd hmargin (by decide))

theorem file?_names (r : BarRule) (h : ∀ c ∈ cs, c ≠ '?' ∧ c ≠ '#') : file? r ('/' :: '/' :: '/' :: cs) =
    some ⟨"file".toList, some ⟨[], none, [], none⟩, .names (r.readPath ('/' :: cs)).segments, none, none⟩ := by
  have hends : ∀ d ∈ '/' :: cs, (!endsPath d) = true := by
    intro d hd
    rcases List.mem_cons.mp hd with rfl | hd
    · rfl
    · simp [endsPath, h d hd]
  have hwhole := List.takeWhile_eq_self_iff.mpr hends
  have hrest := List.dropWhile_eq_nil_iff.mpr hends
  have hhost : ('/' :: cs).takeWhile (fun d => !(SchemeKind.file.isSlash d || endsPath d)) = [] :=
    List.takeWhile_cons_of_neg (by decide)
  have hafter : ('/' :: cs).dropWhile (fun d => !(SchemeKind.file.isSlash d || endsPath d)) = '/' :: cs :=
    List.dropWhile_cons_of_neg (by decide)
  simp only [file?, hhost, hafter, hwhole, hrest, ite_self]
  rfl

theorem parseBy?_text_ofNames (r : BarRule) (hne : ns ≠ []) : parseBy? r (ofNames ns).text =
    some { ofNames ns with path := .names (r.readPath ((ns.map ofName).flatMap ('/' :: ·))).segments } := by
  obtain ⟨cs, hcs⟩ : ∃ cs, (ns.map ofName).flatMap ('/' :: ·) = '/' :: cs := by
    cases ns with
    | nil => exact absurd rfl hne
    | cons n ns => exact ⟨_, rfl⟩
  have hchar : ∀ c ∈ '/' :: cs, 0x20 < c.toNat ∧ c ≠ '?' ∧ c ≠ '#' := by
    rw [← hcs]
    intro c hc
    simp only [List.mem_flatMap, List.mem_map, List.mem_cons] at hc
    obtain ⟨_, ⟨n, -, rfl⟩, rfl | hc⟩ := hc
    · decide
    · obtain ⟨hlow, hnot⟩ := mem_ofName hc
      exact ⟨hlow, hnot _ (by simp), hnot _ (by simp)⟩
  have hprepare : prepare ("file://".toList ++ '/' :: cs) = "file://".toList ++ '/' :: cs := by
    refine prepare_eq_self fun c hc => ?_
    rcases List.mem_append.mp hc with hc | hc
    · have hall : "file://".toList.all (0x20 < ·.toNat) = true := by decide
      simpa using List.all_eq_true.mp hall c hc
    · exact (hchar c hc).1
  have hfile := file?_names r fun c hc => (hchar c (List.mem_cons_of_mem _ hc)).2
  rw [text_ofNames, hcs, parseBy?, hprepare]
  exact hfile

theorem parseBy?_ofNames (r : BarRule) (hne : ns ≠ []) (hns : ∀ n ∈ ns, Path.slash ∉ n) :
    ∃ ms, parseBy? r (ofNames ns).text = some (ofNames ms) ∧ LeadDown ms ∧ ms ≠ [] := by
  obtain ⟨ms, hms, hdown, hmsNe⟩ := readPath_leadDown r hne hns
  refine ⟨ms, ?_, hdown, hmsNe⟩
  rw [parseBy?_text_ofNames r hne, hms]
  rfl

theorem parseBy?_ofNames_of_plain (r : BarRule) (hne : ns ≠ []) (hspares : r.Spares ns)
    (hns : ∀ n ∈ ns, n ≠ Path.dot ∧ n ≠ Path.dotDot) (hempty : ns = [[]] ∨ [] ∉ ns) :
    parseBy? r (ofNames ns).text = some (ofNames ns) := by
  rw [parseBy?_text_ofNames r hne, readPath_of_plain r hne hspares hns hempty]
  rfl

theorem parseBy?_ofNames_of_isBarred {b : UInt8} (hb : (Char.ofNat b.toNat).isAlpha = true)
    (hns : ∀ n ∈ ns, n ≠ Path.dot ∧ n ≠ Path.dotDot) :
    parseBy? .standard (ofNames ([b, 0x7C] :: ns)).text = some (ofNames ([b, 0x3A] :: ns)) := by
  rw [parseBy?_text_ofNames _ (List.cons_ne_nil _ _), readPath_of_isBarred hb hns]
  rfl

/-! ## Paths -/

theorem toPath?_ofNames (hne : ms ≠ []) (hms : ∀ m ∈ ms, Path.slash ∉ m) :
    ∃ q, toPath? (ofNames ms) = some q ∧ Path.isAbsolute q = true ∧ Path.names q = ms.filter (!Path.isSilent ·) := by
  have hpieces : Path.pieces (ms.flatMap (Path.slash :: ·)) = [] :: ms := by
    have hslash : ∀ m ∈ [] :: ms, Path.slash ∉ m := List.forall_mem_cons.mpr ⟨List.not_mem_nil, hms⟩
    have h := Path.pieces_ofPieces (List.cons_ne_nil _ _) hslash
    rwa [Path.ofPieces_cons] at h
  -- a slash at the end adds one more piece, which names nothing
  have hslash : Path.pieces (ms.flatMap (Path.slash :: ·) ++ [Path.slash]) = [] :: (ms ++ [[]]) := by
    rw [Path.pieces_append_slash, hpieces]
    rfl
  have hread : (ms.map ofName).flatMap (fun name => Path.slash :: Percent.decode (Utf8.encode name)) =
      ms.flatMap (Path.slash :: ·) := by
    simp only [List.flatMap_map, decode_ofName]
  have htoPath : toPath? (ofNames ms) = some (if endsInDrive (ms.flatMap (Path.slash :: ·)) then
      ms.flatMap (Path.slash :: ·) ++ [Path.slash] else ms.flatMap (Path.slash :: ·)) := by
    cases ms with
    | nil => exact absurd rfl hne
    | cons m ms =>
      rw [← hread]
      rfl
  refine ⟨_, htoPath, ?_⟩
  split
  · exact ⟨by simp [Path.isAbsolute_of_pieces hslash], by simp [Path.names_of_pieces hslash, Path.isSilent]⟩
  · exact ⟨by simp [Path.isAbsolute_of_pieces hpieces, hne], by simp [Path.names_of_pieces hpieces]⟩

def namesOf (p : Path) : List Bytes :=
  if Path.names p = [] then [[]] else Path.names p

theorem ofPath?_eq (h : Path.isAbsolute p = true) : ofPath? p = some (ofNames (namesOf p)) := by
  rw [ofPath?, if_pos h, ofNames, namesOf]
  split <;> simp_all
  rfl

theorem namesOf_ne_nil (p : Path) : namesOf p ≠ [] := by
  rw [namesOf]
  split <;> simp_all

theorem mem_namesOf (h : Path.isAbsolute p = true) (hn : n ∈ namesOf p) : Path.slash ∉ n ∧ n ≠ Path.dot := by
  rw [namesOf] at hn
  split at hn
  · rw [List.mem_singleton.mp hn]
    decide
  · obtain ⟨hsilent, hslash⟩ := Path.mem_names_of_isAbsolute h hn
    exact ⟨hslash, fun hdot => by simp [hdot, Path.isSilent] at hsilent⟩

theorem namesOf_eq_or_not_mem (h : Path.isAbsolute p = true) : namesOf p = [[]] ∨ [] ∉ namesOf p := by
  rw [namesOf]
  split
  · exact .inl rfl
  · exact .inr fun hmem => by cases (Path.mem_names_of_isAbsolute h hmem).1

theorem filter_namesOf (h : Path.isAbsolute p = true) : (namesOf p).filter (!Path.isSilent ·) = Path.names p := by
  rw [namesOf]
  split
  · simp_all [Path.isSilent]
  · exact List.filter_eq_self.mpr fun n hn => by simp [(Path.mem_names_of_isAbsolute h hn).1]

theorem dotDot_mem_namesOf : Path.dotDot ∈ namesOf p ↔ Path.dotDot ∈ Path.names p := by
  rw [namesOf]
  split
  · simp_all [Path.dotDot]
  · rfl

theorem spares_namesOf {r : BarRule} : r.Spares (namesOf p) ↔ r.Spares (Path.names p) := by
  rw [namesOf]
  split
  · simp_all [BarRule.Spares, isBarred]
  · rfl

theorem BarRule.exists_of_not_spares {r : BarRule} (h : ¬ r.Spares ns) :
    r = .standard ∧ ∃ b ns', ns = [b, 0x7C] :: ns' ∧ (Char.ofNat b.toNat).isAlpha = true := by
  rw [BarRule.Spares, Classical.not_imp, Bool.not_eq_false] at h
  refine ⟨h.1, ?_⟩
  cases ns with
  | nil => cases h.2
  | cons n ns =>
    have hn : isBarred n = true := h.2
    unfold isBarred at hn
    split at hn
    · exact ⟨_, ns, rfl, hn⟩
    · cases hn

/-- Reading changes the names of an absolute path where one leads upwards, or where the rule writes a colon for the bar
of the first. -/
theorem names_read_iff {r : BarRule} (h : Path.isAbsolute p = true) (hdown : LeadDown ms)
    (hparse : parseBy? r (ofNames (namesOf p)).text = some (ofNames ms)) :
    (ms = namesOf p ↔ Path.dotDot ∉ Path.names p ∧ r.Spares (Path.names p)) ∧
      (ms.filter (!Path.isSilent ·) = Path.names p ↔ Path.dotDot ∉ Path.names p ∧ r.Spares (Path.names p)) := by
  have hdots : Path.dotDot ∉ ms := fun hmem => (hdown _ hmem).2 rfl
  rw [← dotDot_mem_namesOf, ← spares_namesOf]
  by_cases hup : Path.dotDot ∈ namesOf p
  · refine ⟨iff_of_false ?_ (fun hc => hc.1 hup), iff_of_false ?_ (fun hc => hc.1 hup)⟩
    · rintro rfl
      exact hdots hup
    · intro hnames
      exact hdots (List.mem_of_mem_filter (hnames ▸ dotDot_mem_namesOf.mp hup))
  have hplain : ∀ n ∈ namesOf p, n ≠ Path.dot ∧ n ≠ Path.dotDot := fun n hn =>
    ⟨(mem_namesOf h hn).2, fun hd => hup (hd ▸ hn)⟩
  by_cases hspares : r.Spares (namesOf p)
  · rw [parseBy?_ofNames_of_plain r (namesOf_ne_nil p) hspares hplain (namesOf_eq_or_not_mem h),
      Option.some.injEq] at hparse
    have hms : ms = namesOf p := (ofNames_of_text (congrArg text hparse)).symm
    rw [hms, filter_namesOf h]
    exact ⟨iff_of_true rfl ⟨hup, hspares⟩, iff_of_true rfl ⟨hup, hspares⟩⟩
  · obtain ⟨rfl, b, ns, hns, hb⟩ := BarRule.exists_of_not_spares hspares
    have hrest : ∀ n ∈ ns, n ≠ Path.dot ∧ n ≠ Path.dotDot := fun n hn => hplain n (hns ▸ List.mem_cons_of_mem _ hn)
    rw [hns, parseBy?_ofNames_of_isBarred hb hrest, Option.some.injEq] at hparse
    have hms : ms = [b, 0x3A] :: ns := (ofNames_of_text (congrArg text hparse)).symm
    refine ⟨iff_of_false ?_ (fun hc => hspares hc.2), iff_of_false ?_ (fun hc => hspares hc.2)⟩
    · rw [hms, hns]
      simp
    · have hloud : ∀ d, Path.isSilent [b, d] = false := by simp [Path.isSilent, Path.dot]
      rw [hms, ← filter_namesOf h, hns]
      simp [hloud]

end Uri

/-- The client has a URI for every absolute path. It is canonical, and the names come back as they were, unless one of
them leads upwards or the first is a drive letter with a bar that the rule of reading writes with a colon: no path that
is read back has a name that leads upwards. -/
theorem ClientOptions.isCanonical_uriFor_iff (o : ClientOptions) (p : Path) (h : Path.isAbsolute p = true) :
    ∃ uri, o.uriFor p = .ok uri ∧ ∀ r : Uri.BarRule,
      (Uri.IsCanonical r uri ↔ Path.dotDot ∉ Path.names p ∧ r.Spares (Path.names p)) ∧
        ∃ q, uriPathBy? r uri = some q ∧ Path.isAbsolute q = true ∧ Path.dotDot ∉ Path.names q ∧
          (Path.names q = Path.names p ↔ Path.dotDot ∉ Path.names p ∧ r.Spares (Path.names p)) := by
  have hresolve : o.resolve p = p := if_pos (.inl h)
  refine ⟨String.ofList (Uri.ofNames (Uri.namesOf p)).text, ?_, fun r => ?_⟩
  · rw [uriFor, fileUri?, hresolve, Uri.ofPath?_eq h]
    rfl
  obtain ⟨ms, hparse, hdown, hmsNe⟩ :=
    Uri.parseBy?_ofNames r (Uri.namesOf_ne_nil p) fun n hn => (Uri.mem_namesOf h hn).1
  obtain ⟨q, hq, habsolute, hnames⟩ := Uri.toPath?_ofNames hmsNe fun m hm => (hdown m hm).1
  obtain ⟨hsame, hback⟩ := Uri.names_read_iff h hdown hparse
  refine ⟨?_, q, ?_, habsolute, ?_, ?_⟩
  · rw [Uri.IsCanonical, String.toList_ofList, hparse, Option.map_some, Option.some.injEq, ← hsame]
    exact ⟨Uri.ofNames_of_text, fun hms => by rw [hms]⟩
  · rw [uriPathBy?, String.toList_ofList, hparse]
    exact hq
  · rw [hnames]
    exact fun hmem => (hdown _ (List.mem_filter.mp hmem).1).2 rfl
  · rw [hnames]
    exact hback

theorem ClientOptions.isCanonical_uriFor_iff_spellings :
    let o : ClientOptions := ⟨"rust", "rust", Path.ofString "/w", none, 0, 0, .null⟩
    (∃ uri, o.uriFor (Path.ofString "/C:/100%2E\\.. " ++ [0xFF]) = .ok uri ∧ ∀ r, Uri.IsCanonical r uri) ∧
      (∃ uri, o.uriFor (Path.ofString "/C|/x") = .ok uri ∧ Uri.IsCanonical .kept uri ∧
        ¬ Uri.IsCanonical .standard uri) ∧
      ∃ uri, o.uriFor (Path.ofString "/w/sub/../main.rs") = .ok uri ∧ ∀ r, ¬ Uri.IsCanonical r uri ∧
        ∃ q, uriPathBy? r uri = some q ∧ Path.names q ≠ Path.names (Path.ofString "/w/sub/../main.rs") := by
  intro o
  obtain ⟨uri₁, huri₁, h₁⟩ := isCanonical_uriFor_iff o (Path.ofString "/C:/100%2E\\.. " ++ [0xFF]) (by decide +kernel)
  obtain ⟨uri₂, huri₂, h₂⟩ := isCanonical_uriFor_iff o (Path.ofString "/C|/x") (by decide +kernel)
  obtain ⟨uri₃, huri₃, h₃⟩ := isCanonical_uriFor_iff o (Path.ofString "/w/sub/../main.rs") (by decide +kernel)
  have hup : Path.dotDot ∈ Path.names (Path.ofString "/w/sub/../main.rs") := by decide +kernel
  refine ⟨⟨uri₁, huri₁, fun r => (h₁ r).1.mpr ⟨by decide +kernel, fun _ => by decide +kernel⟩⟩,
    ⟨uri₂, huri₂, (h₂ _).1.mpr ⟨by decide +kernel, nofun⟩, fun hc => ?_⟩, uri₃, huri₃, fun r => ?_⟩
  · have hbar : (Path.names (Path.ofString "/C|/x")).head?.any Uri.isBarred = true := by decide +kernel
    have hspared := ((h₂ .standard).1.mp hc).2 rfl
    rw [hbar] at hspared
    cases hspared
  · obtain ⟨hcanonical, q, hq, -, -, hnames⟩ := h₃ r
    exact ⟨fun hc => (hcanonical.mp hc).1 hup, q, hq, fun hn => (hnames.mp hn).1 hup⟩

end Liaison
