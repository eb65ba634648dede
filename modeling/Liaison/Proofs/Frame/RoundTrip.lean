import Liaison.Proofs.Frame.Alignment
import Liaison.Proofs.Json.RoundTrip

/-!
# Reading frames back

What was written frame by frame is read value by value, up to the end of the stream. Only doubles, deep
nesting and bodies that are too long are left out.
-/

namespace Liaison

namespace Frame

theorem bodyEvent_toBytes {v : Json} (hn : v.Normal) (hw : v.Whole) (hd : v.depth ≤ Json.maxDepth)
    (hl : v.toBytes.length ≤ maxLength) : bodyEvent v.toBytes = .frame v := by
  rw [bodyEvent, if_neg (Nat.not_lt_of_le hl), Json.ofBytes?_toBytes hn hw hd]

theorem readAll_nil : readAll [] = [.ended] := by
  have h : read [] = (.ended, []) := by
    rw [read, readHeaders_nil]
    rfl
  rw [readAll, h]
  rfl

/-- A value that can be sent: the members of its objects are in order, its numbers are integers of 64
bits, and it is neither nested too deep nor too long. -/
structure Sendable (v : Json) : Prop where
  normal : v.Normal
  whole : v.Whole
  depth : v.depth ≤ 127
  length : v.toBytes.length ≤ 64 * 1024 * 1024

theorem readAll_write {v : Json} (h : Sendable v) (rest : Bytes) :
    readAll (write v ++ rest) = .frame v :: readAll rest := by
  have hl : v.toBytes.length < Nat.pow 2 64 := Nat.lt_of_le_of_lt h.length (by decide)
  rw [write, readAll_ofBody hl, bodyEvent_toBytes h.normal h.whole h.depth h.length]

theorem readAll_flatMap_write (vs : List Json) (h : ∀ v ∈ vs, Sendable v) :
    readAll (vs.flatMap write) = vs.map .frame ++ [.ended] := by
  induction vs with
  | nil => exact readAll_nil
  | cons v vs ih =>
    rw [List.flatMap_cons, readAll_write (h v List.mem_cons_self), ih fun w hw => h w (List.mem_cons_of_mem _ hw)]
    rfl

/-- Texts that hold line breaks, quotes and a header are written and read like any others. -/
theorem readAll_flatMap_write_header :
    readAll ([.obj [("k", .str "\u00e9\n\""), ("l", .int (-7))], .arr [.str "Content-Length: 3\r\n\r\n"]].flatMap
      write) = [.frame (.obj [("k", .str "\u00e9\n\""), ("l", .int (-7))]),
        .frame (.arr [.str "Content-Length: 3\r\n\r\n"]), .ended] := by
  have h₁ : Sendable (.obj [("k", .str "\u00e9\n\""), ("l", .int (-7))]) :=
    ⟨⟨by decide, trivial, trivial, trivial⟩, ⟨trivial, ⟨by decide, by decide⟩, trivial⟩, by decide, by decide +kernel⟩
  have h₂ : Sendable (.arr [.str "Content-Length: 3\r\n\r\n"]) :=
    ⟨⟨trivial, trivial⟩, ⟨trivial, trivial⟩, by decide, by decide +kernel⟩
  exact readAll_flatMap_write _ (by simpa using ⟨h₁, h₂⟩)

end Frame

end Liaison
