/-!
# UTF-8

Texts are lists of characters and streams are lists of bytes. `encode` writes a text,
`decode?` reads one that is well formed, and `decodeLossy` reads any bytes at all, with
U+FFFD standing for each maximal ill-formed piece.
-/

namespace Liaison

abbrev Bytes := List UInt8

namespace Utf8

/-! ## Writing -/

def encodeChar (c : Char) : Bytes :=
  let n := c.toNat
  if n < 0x80 then
    [n.toUInt8]
  else if n < 0x800 then
    [(0xC0 + n / 64).toUInt8, (0x80 + n % 64).toUInt8]
  else if n < 0x10000 then
    [(0xE0 + n / 4096).toUInt8, (0x80 + n / 64 % 64).toUInt8, (0x80 + n % 64).toUInt8]
  else
    [(0xF0 + n / 262144).toUInt8, (0x80 + n / 4096 % 64).toUInt8, (0x80 + n / 64 % 64).toUInt8,
      (0x80 + n % 64).toUInt8]

def encode (cs : List Char) : Bytes :=
  cs.flatMap encodeChar

def ofString (s : String) : Bytes :=
  encode s.toList

def width (c : Char) : Nat :=
  (encodeChar c).length

def length (cs : List Char) : Nat :=
  (encode cs).length

@[simp] theorem encode_nil : encode [] = [] := rfl

@[simp] theorem encode_cons (c : Char) (cs : List Char) :
    encode (c :: cs) = encodeChar c ++ encode cs := by
  simp [encode]

@[simp] theorem encode_append (as bs : List Char) : encode (as ++ bs) = encode as ++ encode bs := by
  simp [encode]

/-! ## Reading -/

/-- The values a lead byte allows for the byte after it, and how many bytes follow in all.
A byte that starts no sequence allows nothing. -/
def lead (b : Nat) : Option (Nat × Nat × Nat) :=
  if b < 0x80 then some (0, 0, 0)
  else if 0xC2 ≤ b ∧ b ≤ 0xDF then some (0x80, 0xBF, 1)
  else if b = 0xE0 then some (0xA0, 0xBF, 2)
  else if b = 0xED then some (0x80, 0x9F, 2)
  else if 0xE1 ≤ b ∧ b ≤ 0xEF then some (0x80, 0xBF, 2)
  else if b = 0xF0 then some (0x90, 0xBF, 3)
  else if b = 0xF4 then some (0x80, 0x8F, 3)
  else if 0xF1 ≤ b ∧ b ≤ 0xF3 then some (0x80, 0xBF, 3)
  else none

def trail (lo hi : Nat) (b : UInt8) : Option Nat :=
  if lo ≤ b.toNat ∧ b.toNat ≤ hi then some (b.toNat - 0x80) else none

/-- Reads the character whose lead byte is `b`. The second part counts the bytes of `rest` that
belong to it, or to the ill-formed piece that `b` starts. -/
def readChar (b : UInt8) (rest : Bytes) : Option Char × Nat :=
  match lead b.toNat with
  | none => (none, 0)
  | some (_, _, 0) => (some (Char.ofNat b.toNat), 0)
  | some (lo, hi, n + 1) =>
    match rest with
    | [] => (none, 0)
    | b₁ :: rest =>
      match trail lo hi b₁, n with
      | none, _ => (none, 0)
      | some x₁, 0 => (some (Char.ofNat ((b.toNat - 0xC0) * 64 + x₁)), 1)
      | some x₁, n + 1 =>
        match rest with
        | [] => (none, 1)
        | b₂ :: rest =>
          match trail 0x80 0xBF b₂, n with
          | none, _ => (none, 1)
          | some x₂, 0 => (some (Char.ofNat ((b.toNat - 0xE0) * 4096 + x₁ * 64 + x₂)), 2)
          | some x₂, _ + 1 =>
            match rest with
            | [] => (none, 2)
            | b₃ :: _ =>
              match trail 0x80 0xBF b₃ with
              | none => (none, 2)
              | some x₃ =>
                (some (Char.ofNat ((b.toNat - 0xF0) * 262144 + x₁ * 4096 + x₂ * 64 + x₃)), 3)

/-- Reads bytes as text; `none` unless all of them are well formed. -/
def decode? : Bytes → Option (List Char)
  | [] => some []
  | b :: rest =>
    match readChar b rest with
    | (none, _) => none
    | (some c, n) => (decode? (rest.drop n)).map (c :: ·)
termination_by bs => bs.length
decreasing_by simp only [List.length_drop, List.length_cons]; omega

/-- Reads bytes as text, with U+FFFD for each ill-formed piece. -/
def decodeLossy : Bytes → List Char
  | [] => []
  | b :: rest =>
    match readChar b rest with
    | (c, n) => c.getD (Char.ofNat 0xFFFD) :: decodeLossy (rest.drop n)
termination_by bs => bs.length
decreasing_by simp only [List.length_drop, List.length_cons]; omega

/-- Reads bytes as a string; `none` unless all of them are well formed. -/
def toString? (bs : Bytes) : Option String :=
  (decode? bs).map String.ofList

/-- Reads bytes as a string, with U+FFFD for each ill-formed piece. -/
def toStringLossy (bs : Bytes) : String :=
  String.ofList (decodeLossy bs)

end Utf8

end Liaison
