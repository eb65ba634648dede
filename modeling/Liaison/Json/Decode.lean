import Liaison.Json.Printer
import Liaison.Text.Quoted

/-!
# Decoding JSON

Decoders turn a value into a domain type or say why they cannot. A record decodes from an object by
the names of its fields, and from an array by their positions. Of several faults in an object the
one in the field that comes first by name is reported, and only then the first field that is
missing.
-/

namespace Liaison

/-! ## Errors -/

inductive DecodeError where
  | wrongType (found : Json) (expected : String)
  | outOfRange (n : Int) (expected : String)
  | missing (field : String)
  | tooFew (taken : Nat) (expected : String)
  | tooMany (length taken : Nat)
  | surplus (length taken : Nat)
  | noVariant (name : String)
  | unknownVariant (tag known : String)
deriving DecidableEq

def Json.describe : Json → String
  | .null => "null"
  | .bool true => "boolean `true`"
  | .bool false => "boolean `false`"
  | .int n => s!"integer `{n}`"
  | .float x => "floating point `" ++ String.ofList x.text ++ "`"
  | .str s => "string " ++ quoted s
  | .arr _ => "sequence"
  | .obj _ => "map"

def elementCount (n : Nat) : String :=
  if n = 1 then "1 element" else s!"{n} elements"

def DecodeError.message : DecodeError → String
  | wrongType found expected => "invalid type: " ++ found.describe ++ ", expected " ++ expected
  | outOfRange n expected => s!"invalid value: integer `{n}`, expected {expected}"
  | missing field => s!"missing field `{field}`"
  | tooFew taken expected => s!"invalid length {taken}, expected {expected}"
  | tooMany length _ => s!"invalid length {length}, expected fewer elements in array"
  | surplus length taken =>
    s!"invalid length {length}, expected " ++ elementCount taken ++ " in sequence"
  | noVariant name => s!"data did not match any variant of untagged enum {name}"
  | unknownVariant tag known => s!"unknown variant `{tag}`, expected {known}"

/-- The error as it is told of an array within what follows a tag: instead of how many items there
are too many, it says how many there should be. -/
def DecodeError.afterTag : DecodeError → DecodeError
  | tooMany length taken => surplus length taken
  | e => e

/-! ## Decoders -/

abbrev Decoder (α : Type) := Json → Except DecodeError α

namespace Decoder

def string : Decoder String
  | .str s => .ok s
  | v => .error (.wrongType v "a string")

def integer (lo hi : Int) (expected : String) : Decoder Int
  | .int n => if lo ≤ n ∧ n ≤ hi then .ok n else .error (.outOfRange n expected)
  | v => .error (.wrongType v expected)

def u32 : Decoder Nat := fun v =>
  (integer 0 0xFFFFFFFF "u32" v).map Int.toNat

def u64 : Decoder Nat := fun v =>
  (integer 0 0xFFFFFFFFFFFFFFFF "u64" v).map Int.toNat

def i32 : Decoder Int :=
  integer (-0x80000000) 0x7FFFFFFF "i32"

def i64 : Decoder Int :=
  integer (-0x8000000000000000) 0x7FFFFFFFFFFFFFFF "i64"

def optional {α : Type} (d : Decoder α) : Decoder (Option α)
  | .null => .ok none
  | v => (d v).map some

def list {α : Type} (d : Decoder α) : Decoder (List α)
  | .arr items => items.mapM d
  | v => .error (.wrongType v "a sequence")

def map {α : Type} (d : Decoder α) : Decoder (List (String × α))
  | .obj members => members.mapM fun m => (d m.2).map (m.1, ·)
  | v => .error (.wrongType v "a map")

def oneOf {α : Type} (name : String) : List (Decoder α) → Decoder α
  | [], _ => .error (.noVariant name)
  | d :: ds, v =>
    match d v with
    | .ok a => .ok a
    | .error _ => oneOf name ds v

def as {α β : Type} (f : α → β) (d : Decoder α) : Decoder β := fun v =>
  (d v).map f

end Decoder

/-! ## Records -/

/-- What decoding fields by their names comes to: all of them, the bad one that comes first by name,
or the first one that is missing. -/
inductive Fields (α : Type) where
  | all (a : α)
  | bad (name : String) (e : DecodeError)
  | missing (name : String)

def Fields.apply {α β : Type} : Fields (α → β) → Fields α → Fields β
  | all g, all a => all (g a)
  | bad m e, bad n d => if n < m then bad n d else bad m e
  | bad m e, _ => bad m e
  | _, bad n d => bad n d
  | missing m, _ => missing m
  | all _, missing n => missing n

def Fields.result {α : Type} : Fields α → Except DecodeError α
  | all a => .ok a
  | bad _ e => .error e
  | missing name => .error (.missing name)

/-- A record of so many fields: how they are found by their names, and how they are taken off an array
in order. -/
structure Record (α : Type) where
  size : Nat
  find : (String → Option Json) → Fields α
  take : (expected : String) → (taken : Nat) → List Json → Except DecodeError (α × List Json)

namespace Record

protected def pure {α : Type} (a : α) : Record α where
  size := 0
  find _ := .all a
  take _ _ items := .ok (a, items)

protected def seq {α β : Type} (f : Record (α → β)) (x : Unit → Record α) : Record β where
  size := f.size + (x ()).size
  find lookup := (f.find lookup).apply ((x ()).find lookup)
  take expected taken items := do
    let (g, rest) ← f.take expected taken items
    let (a, rest) ← (x ()).take expected (taken + f.size) rest
    return (g a, rest)

instance : Applicative Record where
  pure := Record.pure
  seq := Record.seq

def fieldWith {α : Type} (name : String) (d : Decoder α) (absent : Option α) : Record α where
  size := 1
  find lookup :=
    match lookup name, absent with
    | some v, _ =>
      match d v with
      | .ok a => .all a
      | .error e => .bad name e
    | none, some a => .all a
    | none, none => .missing name
  take expected taken items :=
    match items, absent with
    | v :: rest, _ => (d v).map (·, rest)
    | [], some a => .ok (a, [])
    | [], none => .error (.tooFew taken expected)

def field {α : Type} (name : String) (d : Decoder α) : Record α :=
  fieldWith name d none

def fieldOr {α : Type} (name : String) (d : Decoder α) (default : α) : Record α :=
  fieldWith name d (some default)

def fieldOpt {α : Type} (name : String) (d : Decoder α) : Record (Option α) :=
  fieldWith name d.optional (some none)

def ofMembers {α : Type} (r : Record α) (members : List (String × Json)) : Except DecodeError α :=
  (r.find fun name => Table.get? name members).result

def ofItems {α : Type} (r : Record α) (expected : String) (items : List Json) :
    Except DecodeError (α × List Json) :=
  r.take (expected ++ " with " ++ elementCount r.size) 0 items

def decode {α : Type} (name : String) (r : Record α) : Decoder α
  | .obj members => r.ofMembers members
  | .arr items =>
    match r.ofItems ("struct " ++ name) items with
    | .ok (a, []) => .ok a
    | .ok (_, _ :: _) => .error (.tooMany items.length r.size)
    | .error e => .error e
  | v => .error (.wrongType v ("struct " ++ name))

def object {α : Type} (name : String) (r : Record α) : Decoder α
  | .obj members => r.ofMembers members
  | v => .error (.wrongType v name)

end Record

end Liaison
