import Liaison.Proofs.Session.TaskPlaces
import Liaison.Proofs.Session.Reach

/-!
# The last lines

In whatever pieces the error stream comes, and whatever else happens to the session: the lines that are kept are the
last ones that have come of the stream, in their order, as many as there is room for.
-/

namespace Liaison

/-! ## Lines of a stream -/

/-- Bytes are whole lines, each with the line feed that ends it, and what has come of one more. -/
structure IsLines (bs : Bytes) (whole : List Bytes) (rest : Bytes) : Prop where
  joined : whole.flatMap (· ++ [0x0A]) ++ rest = bs
  whole : ∀ line ∈ whole, 0x0A ∉ line
  rest : 0x0A ∉ rest

/-- A line is read as a text, which leaves out one carriage return at its end. -/
inductive IsReadAs : Bytes → String → Prop
  | plain {line : Bytes} (h : line.getLast? ≠ some 0x0D) : IsReadAs line (Utf8.toStringLossy line)
  | returned (line : Bytes) : IsReadAs (line ++ [0x0D]) (Utf8.toStringLossy line)

/-- What counts as a line though no line feed has ended it: something at the end of a stream. -/
def lastLine (rest : Bytes) : Option StreamEnd → List Bytes
  | some .ended => if rest = [] then [] else [rest]
  | _ => []

/-- The lines of a stream of which these bytes have come, and perhaps its end, are read as these texts. -/
def Yields (bs : Bytes) (e : Option StreamEnd) (texts : List String) : Prop :=
  ∃ whole rest, IsLines bs whole rest ∧ List.Forall₂ IsReadAs (whole ++ lastLine rest e) texts

/-- The last of all, in their order, as many as there is room for. -/
structure IsLast (room : Nat) (all kept : List String) : Prop where
  suffix : kept <:+ all
  length : kept.length = min room all.length

namespace IsLines

variable {bs rest : Bytes} {whole : List Bytes}

theorem nil : IsLines [] [] [] :=
  ⟨rfl, fun _ h => absurd h List.not_mem_nil, List.not_mem_nil⟩

theorem concat_lineFeed (h : IsLines bs whole rest) : IsLines (bs ++ [0x0A]) (whole ++ [rest]) [] := by
  refine ⟨?_, ?_, List.not_mem_nil⟩
  · rw [← h.joined]
    simp
  · intro line hline
    rcases List.mem_append.mp hline with hline | hline
    · exact h.whole line hline
    · rw [List.mem_singleton.mp hline]
      exact h.rest

theorem concat (h : IsLines bs whole rest) {b : UInt8} (hb : b ≠ 0x0A) :
    IsLines (bs ++ [b]) whole (rest ++ [b]) := by
  refine ⟨?_, h.whole, ?_⟩
  · rw [← h.joined, List.append_assoc]
  · simp [h.rest, Ne.symm hb]

end IsLines

namespace ErrorTail

/-! ## Keeping lines -/

theorem dropLast_concat (b : UInt8) (bs : Bytes) : dropLast b (bs ++ [b]) = bs := by
  simp [dropLast]

theorem dropLast_of_ne {b : UInt8} {bs : Bytes} (h : bs.getLast? ≠ some b) : dropLast b bs = bs :=
  if_neg h

theorem isReadAs_dropLast (line : Bytes) : IsReadAs line (Utf8.toStringLossy (dropLast 0x0D line)) := by
  by_cases h : line.getLast? = some 0x0D
  · obtain ⟨kept, rfl⟩ := List.getLast?_eq_some_iff.mp h
    rw [dropLast_concat]
    exact .returned kept
  · rw [dropLast_of_ne h]
    exact .plain h

theorem isReadAs_lineText_concat (line : Bytes) : IsReadAs line (lineText (line ++ [0x0A])) := by
  rw [lineText, dropLast_concat]
  exact isReadAs_dropLast line

theorem isReadAs_lineText {line : Bytes} (h : 0x0A ∉ line) : IsReadAs line (lineText line) := by
  rw [lineText, dropLast_of_ne fun hl => h (List.mem_of_getLast? hl)]
  exact isReadAs_dropLast line

/-- One more line takes the place of the oldest one as soon as there is no room for both. -/
theorem isLast_keep {all lines : List String} (h : IsLast capacity all lines) (text : String) :
    IsLast capacity (all ++ [text]) (keep lines text) := by
  obtain ⟨older, rfl⟩ := h.suffix
  have hlength := h.length
  rw [List.length_append] at hlength
  unfold keep
  split
  · rename_i hfull
    cases lines with
    | nil => cases hfull
    | cons oldest lines =>
      refine ⟨⟨older ++ [oldest], by simp⟩, ?_⟩
      simp only [List.length_cons, List.tail_cons, List.length_append, List.length_nil] at hfull ⊢
      omega
  · rename_i hroom
    -- There is room only as long as no line was left out.
    have holder : older = [] := List.length_eq_zero_iff.mp (by omega)
    subst holder
    refine ⟨List.suffix_refl _, ?_⟩
    simp only [List.nil_append, List.length_append, List.length_cons, List.length_nil] at hlength ⊢
    omega

/-! ## Following a stream -/

structure Follows (t : ErrorTail) (bs : Bytes) (texts : List String) : Prop where
  cut : ∃ whole, IsLines bs whole t.unfinished ∧ List.Forall₂ IsReadAs whole texts
  last : IsLast capacity texts t.lines
  goesOn : t.isDone = false

variable {t : ErrorTail} {bs : Bytes} {texts : List String}

theorem follows_empty : empty.Follows [] [] :=
  ⟨⟨[], .nil, .nil⟩, ⟨List.suffix_refl _, rfl⟩, rfl⟩

theorem feed_nil (t : ErrorTail) : t.feed [] = t := by
  unfold feed
  split <;> rfl

theorem feed_cons (h : t.isDone = false) (b : UInt8) (more : Bytes) : t.feed (b :: more) = (t.byte b).feed more := by
  have hb : (t.byte b).isDone = false := by
    unfold byte
    split <;> exact h
  rw [feed, feed, if_neg (by simp [h]), if_neg (by simp [hb]), List.foldl_cons]

namespace Follows

theorem yields (h : t.Follows bs texts) : Yields bs none texts := by
  obtain ⟨whole, hcut, hread⟩ := h.cut
  exact ⟨whole, t.unfinished, hcut, by simpa [lastLine] using hread⟩

theorem byte (h : t.Follows bs texts) (b : UInt8) : ∃ more, (t.byte b).Follows (bs ++ [b]) (texts ++ more) := by
  obtain ⟨whole, hcut, hread⟩ := h.cut
  unfold ErrorTail.byte
  split
  · rename_i hb
    subst hb
    have hline : IsReadAs t.unfinished (lineText (t.unfinished ++ [0x0A])) := isReadAs_lineText_concat _
    exact ⟨[_], ⟨_, hcut.concat_lineFeed, List.rel_append hread (.cons hline .nil)⟩, isLast_keep h.last _, h.goesOn⟩
  · rename_i hb
    refine ⟨[], ?_⟩
    rw [List.append_nil]
    exact ⟨⟨whole, hcut.concat hb, hread⟩, h.last, h.goesOn⟩

theorem feed (h : t.Follows bs texts) (bytes : Bytes) :
    ∃ more, (t.feed bytes).Follows (bs ++ bytes) (texts ++ more) := by
  -- What came before is part of the induction, since a line may have begun in it.
  induction bytes generalizing t bs texts with
  | nil =>
    refine ⟨[], ?_⟩
    rw [feed_nil, List.append_nil, List.append_nil]
    exact h
  | cons b bytes ih =>
    obtain ⟨first, hfirst⟩ := h.byte b
    obtain ⟨more, hmore⟩ := ih hfirst
    refine ⟨first ++ more, ?_⟩
    rw [feed_cons h.goesOn, List.append_cons, ← List.append_assoc]
    exact hmore

/-- At the end of the stream the line that was begun counts, and at a fault it does not. -/
theorem finish (h : t.Follows bs texts) (e : StreamEnd) : ∃ more, Yields bs (some e) (texts ++ more) ∧
    IsLast capacity (texts ++ more) (t.finish e).lines ∧ (t.finish e).isDone = true := by
  obtain ⟨whole, hcut, hread⟩ := h.cut
  rw [ErrorTail.finish, if_neg (by simp [h.goesOn])]
  split
  · rename_i hlast
    obtain ⟨rfl, hrest⟩ := hlast
    refine ⟨[lineText t.unfinished], ⟨whole, t.unfinished, hcut, ?_⟩, isLast_keep h.last _, rfl⟩
    rw [lastLine, if_neg hrest]
    exact List.rel_append hread (.cons (isReadAs_lineText hcut.rest) .nil)
  · rename_i hnone
    have hlast : lastLine t.unfinished (some e) = [] := by
      cases e with
      | ended => exact if_pos (by simpa using hnone)
      | fault => rfl
    refine ⟨[], ?_⟩
    rw [List.append_nil]
    refine ⟨⟨whole, t.unfinished, hcut, ?_⟩, h.last, rfl⟩
    rw [hlast, List.append_nil]
    exact hread

end Follows

end ErrorTail

/-! ## What came of a stream -/

/-- The bytes that came of the error stream before there was nothing more to come. -/
def complaints : List Occurrence → Bytes
  | [] => []
  | .endErrors _ :: _ => []
  | .hear bytes :: rest => bytes ++ complaints rest
  | _ :: rest => complaints rest

def complaintsEnd? : List Occurrence → Option StreamEnd
  | [] => none
  | .endErrors e :: _ => some e
  | _ :: rest => complaintsEnd? rest

theorem complaintsEnd?_append (occurrences later : List Occurrence) :
    complaintsEnd? (occurrences ++ later) = (complaintsEnd? occurrences).or (complaintsEnd? later) := by
  induction occurrences with
  | nil => rfl
  | cons e occurrences ih =>
    cases e with
    | endErrors e => rfl
    | _ => exact ih

theorem complaints_append_of_end {occurrences : List Occurrence} {e : StreamEnd}
    (h : complaintsEnd? occurrences = some e) (later : List Occurrence) :
    complaints (occurrences ++ later) = complaints occurrences := by
  induction occurrences with
  | nil => cases h
  | cons e occurrences ih =>
    cases e with
    | endErrors e => rfl
    | hear bytes => exact congrArg (bytes ++ ·) (ih h)
    | _ => exact ih h

theorem complaints_append {occurrences : List Occurrence} (h : complaintsEnd? occurrences = none)
    (later : List Occurrence) : complaints (occurrences ++ later) = complaints occurrences ++ complaints later := by
  induction occurrences with
  | nil => rfl
  | cons e occurrences ih =>
    cases e with
    | endErrors e => cases h
    | hear bytes => exact (congrArg (bytes ++ ·) (ih h)).trans (List.append_assoc ..).symm
    | _ => exact ih h

namespace ErrorTail

def after (t : ErrorTail) : Occurrence → ErrorTail
  | .hear bytes => t.feed bytes
  | .endErrors e => t.finish e
  | _ => t

theorem after_of_isDone {t : ErrorTail} (h : t.isDone = true) (e : Occurrence) : t.after e = t := by
  cases e with
  | hear bytes => exact if_pos h
  | endErrors e => exact if_pos h
  | _ => rfl

/-- The tail when all that happened has brought lines with these texts. -/
inductive Recounts (t : ErrorTail) (occurrences : List Occurrence) (texts : List String) : Prop
  | goingOn (he : complaintsEnd? occurrences = none) (h : t.Follows (complaints occurrences) texts)
  | done (e : StreamEnd) (he : complaintsEnd? occurrences = some e) (hd : t.isDone = true)
    (hy : Yields (complaints occurrences) (some e) texts) (hl : IsLast capacity texts t.lines)

namespace Recounts

variable {t : ErrorTail} {occurrences : List Occurrence} {texts : List String}

theorem yields (h : t.Recounts occurrences texts) :
    Yields (complaints occurrences) (complaintsEnd? occurrences) texts := by
  cases h with
  | goingOn he h => exact he ▸ h.yields
  | done e he hd hy => exact he ▸ hy

theorem last (h : t.Recounts occurrences texts) : IsLast capacity texts t.lines := by
  cases h with
  | goingOn he h => exact h.last
  | done e he hd hy hl => exact hl

theorem happen (h : t.Recounts occurrences texts) (e : Occurrence) :
    ∃ more, (t.after e).Recounts (occurrences ++ [e]) (texts ++ more) := by
  have hend := complaintsEnd?_append occurrences [e]
  cases h with
  | done reason he hd hy hl =>
    -- Neither side takes in anything any more.
    rw [he, Option.some_or] at hend
    refine ⟨[], ?_⟩
    rw [after_of_isDone hd, List.append_nil]
    exact .done reason hend hd (by rwa [complaints_append_of_end he]) hl
  | goingOn he h =>
    rw [he, Option.none_or] at hend
    have hbytes := complaints_append he [e]
    cases e with
    | hear bytes =>
      obtain ⟨more, hfed⟩ := h.feed bytes
      rw [complaints, complaints, List.append_nil] at hbytes
      exact ⟨more, .goingOn hend (hbytes ▸ hfed)⟩
    | endErrors reason =>
      obtain ⟨more, hyields, hlast, hdone⟩ := h.finish reason
      rw [complaints, List.append_nil] at hbytes
      exact ⟨more, .done reason hend hdone (hbytes ▸ hyields) hlast⟩
    | _ =>
      have hsame := hbytes.trans (List.append_nil _)
      refine ⟨[], .goingOn hend ?_⟩
      rw [hsame, List.append_nil]
      exact h

theorem run (h : t.Recounts occurrences texts) (later : List Occurrence) :
    ∃ more, (later.foldl after t).Recounts (occurrences ++ later) (texts ++ more) := by
  induction later generalizing t occurrences texts with
  | nil => exact ⟨[], by rwa [List.append_nil, List.append_nil]⟩
  | cons e later ih =>
    obtain ⟨first, hfirst⟩ := h.happen e
    obtain ⟨more, hmore⟩ := ih hfirst
    refine ⟨first ++ more, ?_⟩
    rw [List.append_cons, ← List.append_assoc]
    exact hmore

end Recounts

theorem recounts_empty : empty.Recounts [] [] :=
  .goingOn rfl follows_empty

end ErrorTail

/-! ## The error stream of a session -/

section

variable {m m' : Machine} {t : TaskId}

theorem errors_perform {a : Action} {answer : a.Answer} (h : m.perform t a = some (answer, m')) :
    m'.process.map (·.errors) = m.process.map (·.errors) := by
  rcases process_perform h with he | ⟨-, he⟩ | ⟨-, he⟩ | ⟨_, -, he⟩
  · rw [he]
  all_goals
    rw [he]
    exact Option.map_map ..

theorem errors_advance (h : m.advance t = some m') : m'.process.map (·.errors) = m.process.map (·.errors) := by
  unfold Machine.advance at h
  split at h
  · cases h
  · cases h
    rfl
  · cases h
    rfl
  · obtain ⟨⟨answer, m₁⟩, hp, rfl⟩ := Option.map_eq_some_iff.mp h
    change m₁.process.map _ = _
    exact errors_perform hp

/-- Nothing but what comes of the error stream, and its end, changes what is kept of it. -/
theorem errors_happen {x : Course} {tail : ErrorTail} (h : x.machine.process.map (·.errors) = some tail)
    (e : Occurrence) : (x.happen e).machine.process.map (·.errors) = some (tail.after e) := by
  obtain ⟨p, hp, rfl⟩ := Option.map_eq_some_iff.mp h
  cases e with
  | step t =>
    cases hadv : x.machine.advance t with
    | none =>
      simp only [Course.happen, hadv]
      exact h
    | some m =>
      simp only [Course.happen, hadv]
      exact (errors_advance hadv).trans h
  | drop t => exact (congrArg _ (drop_eq _ _).2.2).trans h
  | receive bytes =>
    rw [Course.happen, Machine.receive]
    split <;> exact h
  | hear _ | endErrors _ | endChild _ =>
    simp only [Course.happen, Machine.hear, Machine.endErrors, Machine.endChild, hp]
    rfl
  | _ => exact h

theorem errors_run {x : Course} {tail : ErrorTail} (h : x.machine.process.map (·.errors) = some tail)
    (occurrences : List Occurrence) :
    (x.run occurrences).machine.process.map (·.errors) = some (occurrences.foldl ErrorTail.after tail) := by
  induction occurrences generalizing x tail with
  | nil => exact h
  | cons e occurrences ih => exact ih (errors_happen h e)

theorem errorLines_of_errors {tail : ErrorTail} (h : m.process.map (·.errors) = some tail) :
    m.errorLines = tail.lines := by
  obtain ⟨p, hp, rfl⟩ := Option.map_eq_some_iff.mp h
  rw [Machine.errorLines, hp]

end

/-- At any moment of any session with a server of its own, the lines that are kept are the last 200 that have come of
its error stream, or all of them if there are fewer, in their order. Those that have come are the first ones of all that
will have come in the end. -/
theorem errorLines_run (o : ClientOptions) (files : FileTree) (occurrences later : List Occurrence) :
    ∃ texts more, Yields (complaints occurrences) (complaintsEnd? occurrences) texts ∧
      IsLast 200 texts ((Course.begin o files true).run occurrences).machine.errorLines ∧
      Yields (complaints (occurrences ++ later)) (complaintsEnd? (occurrences ++ later)) (texts ++ more) := by
  obtain ⟨texts, h⟩ := ErrorTail.recounts_empty.run occurrences
  obtain ⟨more, hlater⟩ := h.run later
  refine ⟨texts, more, h.yields, ?_, hlater.yields⟩
  rw [errorLines_of_errors (errors_run rfl occurrences)]
  exact h.last

/-- Of two carriage returns one is left out, and a line that has not ended counts at the end of the stream. -/
example : ((ErrorTail.empty.feed [0x61, 0x0D, 0x0D, 0x0A, 0x0A, 0xFF]).finish .ended).lines =
    ["a\r", "", "\uFFFD"] := by
  decide +kernel

end Liaison
