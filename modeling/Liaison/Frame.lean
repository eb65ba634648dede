import Liaison.Json.Printer
import Liaison.Json.Reader
import Liaison.Text.Blank
import Liaison.Text.Quoted

/-!
# Frames

A frame is a block of header lines, a blank line, and a JSON body of the length that the header
`Content-Length` gives. A malformed frame leaves the stream at the next frame, so that reading can
go on; a stream that ends inside a frame is at fault for good. Other faults of the stream are left out, and
so is the reason why a body is not JSON.
-/

namespace Liaison

namespace Frame

def maxLength : Nat := 64 * 1024 * 1024

/-! ## Writing -/

def header (length : Nat) : Bytes :=
  Utf8.ofString "Content-Length: " ++ Utf8.encode (Nat.toDigits 10 length) ++
    Utf8.ofString "\r\n\r\n"

def ofBody (body : Bytes) : Bytes :=
  header body.length ++ body

def write (v : Json) : Bytes :=
  ofBody v.toBytes

/-! ## Events -/

inductive Flaw where
  | missingLength
  | invalidLength (value : String)
  | tooLong (length : Nat)
  | invalidBody
deriving DecidableEq

def Flaw.message : Flaw → String
  | missingLength => "missing Content-Length header"
  | invalidLength value => "invalid Content-Length value " ++ quoted value
  | tooLong length => s!"Content-Length {length} exceeds maximum {maxLength}"
  | invalidBody => "invalid JSON body"

inductive Cut where
  | headers
  | body
  | skippedBody
deriving DecidableEq

def Cut.message : Cut → String
  | headers => "unexpected EOF while reading headers"
  | body => "unexpected EOF while reading frame body"
  | skippedBody => "unexpected EOF while reading oversized frame body"

inductive Event where
  | frame (v : Json)
  | malformed (flaw : Flaw)
  | fault (cut : Cut)
  | ended
deriving DecidableEq

def Event.isLast : Event → Bool
  | fault _ | ended => true
  | _ => false

/-! ## Header lines -/

def takeLine : Bytes → Bytes × Bytes
  | [] => ([], [])
  | b :: rest =>
    if b = 0x0A then ([b], rest)
    else (b :: (takeLine rest).1, (takeLine rest).2)

theorem takeLine_append (bs : Bytes) : (takeLine bs).1 ++ (takeLine bs).2 = bs := by
  induction bs with
  | nil => rfl
  | cons b rest ih =>
    unfold takeLine
    by_cases h : b = 0x0A <;> simp [h, ih]

theorem length_takeLine (bs : Bytes) (h : bs ≠ []) : (takeLine bs).2.length < bs.length := by
  cases bs with
  | nil => exact absurd rfl h
  | cons b rest =>
    have e := congrArg List.length (takeLine_append rest)
    rw [List.length_append] at e
    unfold takeLine
    by_cases h : b = 0x0A <;> simp [h]
    omega

def lengthName : List Char := "content-length:".toList

/-- What follows `name` in a text that starts with it in any case. -/
def afterName? : (name : List Char) → List Char → Option (List Char)
  | [], cs => some cs
  | _ :: _, [] => none
  | n :: name, c :: cs => if c.toLower = n then afterName? name cs else none

def lengthField? (cs : List Char) : Option (List Char) :=
  match afterName? lengthName cs with
  | some value => some value
  | none =>
    match cs with
    | [] => none
    | _ :: cs => lengthField? cs

/-- Reads a natural number below 2^64; a plus sign may come first. -/
def natural? (cs : List Char) : Option Nat :=
  let digits := match cs with
    | '+' :: rest => rest
    | cs => cs
  if !digits.isEmpty && digits.all Char.isDigit && Json.ofDigits digits < Nat.pow 2 64 then
    some (Json.ofDigits digits)
  else none

inductive Announced where
  | nothing
  | length (n : Nat)
  | invalid (value : String)
deriving DecidableEq

def Announced.line (announced : Announced) (line : List Char) : Announced :=
  match lengthField? line with
  | none => announced
  | some value =>
    match natural? (trim value) with
    | some n => .length n
    | none => .invalid (String.ofList (trim value))

inductive HeaderEnd where
  | blankLine (announced : Announced)
  | cut
  | ended

/-- Reads header lines up to the blank line that ends them. Blank lines before the first one are
skipped; `started` says that there was a first one. -/
def readHeaders (started : Bool) (announced : Announced) (bs : Bytes) : HeaderEnd × Bytes :=
  if _h : bs = [] then
    (if started then .cut else .ended, [])
  else
    let line := trim (Utf8.decodeLossy (takeLine bs).1)
    let rest := (takeLine bs).2
    if line.isEmpty then
      if started then (.blankLine announced, rest) else readHeaders false announced rest
    else readHeaders true (announced.line line) rest
termination_by bs.length
decreasing_by all_goals exact length_takeLine bs _h

theorem length_readHeaders {started : Bool} {announced a : Announced} {bs rest : Bytes}
    (h : readHeaders started announced bs = (.blankLine a, rest)) : rest.length < bs.length := by
  fun_induction readHeaders started announced bs with
  | case1 => simp at h; split at h <;> simp at h
  | case2 _ _ hbs =>
    simp only [Prod.mk.injEq] at h
    exact h.2 ▸ length_takeLine _ hbs
  | case3 _ _ _ hbs _ _ _ _ ih => exact Nat.lt_trans (ih h) (length_takeLine _ hbs)
  | case4 _ _ _ hbs _ _ _ ih => exact Nat.lt_trans (ih h) (length_takeLine _ hbs)

/-! ## Reading -/

def readBody (length : Nat) (bs : Bytes) : Event × Bytes :=
  if maxLength < length then
    if bs.length < length then (.fault .skippedBody, [])
    else (.malformed (.tooLong length), bs.drop length)
  else if bs.length < length then (.fault .body, [])
  else
    match Json.ofBytes? (bs.take length) with
    | some v => (.frame v, bs.drop length)
    | none => (.malformed .invalidBody, bs.drop length)

def read (bs : Bytes) : Event × Bytes :=
  match readHeaders false .nothing bs with
  | (.ended, rest) => (.ended, rest)
  | (.cut, rest) => (.fault .headers, rest)
  | (.blankLine .nothing, rest) => (.malformed .missingLength, rest)
  | (.blankLine (.invalid value), rest) => (.malformed (.invalidLength value), rest)
  | (.blankLine (.length n), rest) => readBody n rest

theorem length_readBody (n : Nat) (bs : Bytes) : (readBody n bs).2.length ≤ bs.length := by
  unfold readBody
  repeat' split
  all_goals simp

theorem length_read {bs : Bytes} (h : (read bs).1.isLast = false) :
    (read bs).2.length < bs.length := by
  unfold read at *
  cases e : readHeaders false .nothing bs with
  | mk headerEnd rest =>
    simp only [e] at h ⊢
    match headerEnd with
    | .ended => simp [Event.isLast] at h
    | .cut => simp [Event.isLast] at h
    | .blankLine .nothing => exact length_readHeaders e
    | .blankLine (.invalid _) => exact length_readHeaders e
    | .blankLine (.length n) => exact Nat.lt_of_le_of_lt (length_readBody n _) (length_readHeaders e)

def isMidLine (bs : Bytes) : Bool :=
  (readHeaders false .nothing bs).2.isEmpty && bs.getLast? ≠ some 0x0A

/-- Reads one frame of a stream of which these bytes have come so far. There is none yet as long as
more bytes, of which `ended` says that there will be none, could make a difference. -/
def next? (ended : Bool) (bs : Bytes) : Option (Event × Bytes) :=
  if !ended && ((read bs).1.isLast || isMidLine bs) then none else some (read bs)

def readAll (bs : Bytes) : List Event :=
  if _h : (read bs).1.isLast = false then (read bs).1 :: readAll (read bs).2 else [(read bs).1]
termination_by bs.length
decreasing_by exact length_read _h

end Frame

end Liaison
