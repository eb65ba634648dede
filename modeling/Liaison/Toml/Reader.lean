import Liaison.Toml.Scalar

/-!
# Reading TOML

A document is a list of statements: a header opens a table or one more table of an array, and an
entry gives a value to a key. Arrays and inline tables nest at most 80 deep.
-/

namespace Liaison

namespace Toml

/-! ## Tables -/

/-- How a table came to be, which decides what may be added to it. -/
inductive Origin where
  | header
  | implied
  | dotted
deriving DecidableEq

/-- What a key stands for: a value that is complete, a table, or an array of tables. -/
inductive Node where
  | value (v : Json)
  | table (origin : Origin) (entries : List (String × Node))
  | tables (items : List Node)
deriving Inhabited

namespace Node

mutual

def toJson : Node → Json
  | value v => v
  | table _ entries => Json.ofMembers (toMembers entries)
  | tables items => .arr (toItems items)

def toMembers : List (String × Node) → List (String × Json)
  | [] => []
  | (k, n) :: rest => (k, toJson n) :: toMembers rest

def toItems : List Node → List Json
  | [] => []
  | n :: rest => toJson n :: toItems rest

end

end Node

abbrev Entries := List (String × Node)

/-- Puts a node in place of the one under a key, or adds it. -/
def put (k : String) (n : Node) : Entries → Entries
  | [] => [(k, n)]
  | (l, m) :: rest => if k = l then (l, n) :: rest else (l, m) :: put k n rest

/-- Changes the table that a path leads to. Tables on the way are made where there are none, and the
last table of an array counts. `dotted` says that the path is that of a dotted key, which may not
lead through a table that a header names. -/
def descend (dotted : Bool) (change : Origin → Entries → Option Entries) :
    (path : List String) → Origin → Entries → Option Entries
  | [], origin, entries => change origin entries
  | k :: path, _, entries =>
    match entries.lookup k with
    | none => do
      let origin := if dotted then Origin.dotted else .implied
      return put k (.table origin (← descend dotted change path origin [])) entries
    | some (.table origin inner) =>
      if dotted ∧ origin = .header then none
      else do return put k (.table origin (← descend dotted change path origin inner)) entries
    | some (.tables items) =>
      match items.getLast? with
      | some (.table origin inner) =>
        if dotted then none
        else do
          let last := Node.table origin (← descend dotted change path origin inner)
          return put k (.tables (items.dropLast ++ [last])) entries
      | _ => none
    | some (.value _) => none

/-- Gives a value to a key of a table. No key gets two, and a dotted key ends in a table that dotted
keys made. -/
def assign (path : List String) (k : String) (v : Json) (entries : Entries) : Option Entries :=
  descend true
    (fun origin entries =>
      if ¬ path.isEmpty ∧ origin ≠ .dotted then none
      else if (entries.lookup k).isSome then none
      else some (entries ++ [(k, .value v)]))
    path .header entries

def openTable (path : List String) (k : String) (root : Entries) : Option Entries :=
  descend false
    (fun _ entries =>
      match entries.lookup k with
      | none => some (entries ++ [(k, .table .header [])])
      | some (.table .implied inner) => some (put k (.table .header inner) entries)
      | some _ => none)
    path .header root

def openItem (path : List String) (k : String) (root : Entries) : Option Entries :=
  descend false
    (fun _ entries =>
      match entries.lookup k with
      | none => some (entries ++ [(k, .tables [.table .header []])])
      | some (.tables items) => some (put k (.tables (items ++ [.table .header []])) entries)
      | some _ => none)
    path .header root

/-! ## Blanks and comments -/

/-- Drops a comment, up to the end of its line. It may hold no controls. -/
def skipComment? (cs : List Char) : Option (List Char) :=
  match cs with
  | '#' :: cs =>
    let isEnd (c : Char) : Bool := c = '\n' || c = '\r'
    if (cs.takeWhile (!isEnd ·)).any isControl then none else some (cs.dropWhile (!isEnd ·))
  | cs => some cs

def skipLines? : (fuel : Nat) → List Char → Option (List Char)
  | 0, _ => none
  | fuel + 1, cs => do
    let cs ← skipComment? (skipGap cs)
    match newline? cs with
    | some cs => skipLines? fuel cs
    | none => some cs

def skip? (cs : List Char) : Option (List Char) :=
  skipLines? (cs.length + 1) cs

/-! ## Keys -/

def isBareChar (c : Char) : Bool :=
  c.isAlphanum || c = '_' || c = '-'

def part? (cs : List Char) : Option (String × List Char) :=
  match cs.takeWhile isBareChar with
  | [] => (lineString? cs).map fun r => (String.ofList r.1, r.2)
  | bare => some (String.ofList bare, cs.dropWhile isBareChar)

def key? : (fuel : Nat) → List Char → Option (List String × List Char)
  | 0, _ => none
  | fuel + 1, cs => do
    let (part, cs) ← part? (skipGap cs)
    match skipGap cs with
    | '.' :: cs =>
      let (parts, cs) ← key? fuel cs
      return (part :: parts, cs)
    | cs => return ([part], cs)

def path? (cs : List Char) : Option (List String × String × List Char) := do
  let (parts, cs) ← key? (cs.length + 1) cs
  let name ← parts.getLast?
  return (parts.dropLast, name, cs)

/-! ## Values -/

def items? (value : List Char → Option (Json × List Char)) :
    (fuel : Nat) → List Char → Option (List Json × List Char)
  | 0, _ => none
  | fuel + 1, cs => do
    match ← skip? cs with
    | ']' :: cs => return ([], cs)
    | cs =>
      let (v, cs) ← value cs
      match ← skip? cs with
      | ',' :: cs =>
        let (vs, cs) ← items? value fuel cs
        return (v :: vs, cs)
      | ']' :: cs => return ([v], cs)
      | _ => none

def entry? (value : List Char → Option (Json × List Char)) (entries : Entries) (cs : List Char) :
    Option (Entries × List Char) := do
  let (path, name, cs) ← path? cs
  match cs with
  | '=' :: cs =>
    let (v, cs) ← value (skipGap cs)
    return (← assign path name v entries, cs)
  | _ => none

def entries? (value : List Char → Option (Json × List Char)) :
    (fuel : Nat) → Entries → List Char → Option (Entries × List Char)
  | 0, _, _ => none
  | fuel + 1, entries, cs => do
    match ← skip? cs with
    | [] => none
    | c :: cs =>
      if c.toNat = 0x7D then return (entries, cs)
      else
        let (entries, cs) ← entry? value entries (c :: cs)
        match ← skip? cs with
        | ',' :: cs => entries? value fuel entries cs
        | c :: cs => if c.toNat = 0x7D then return (entries, cs) else none
        | [] => none

def simple? (cs : List Char) : Option (Json × List Char) :=
  match string? cs with
  | some (s, cs) => some (.str (String.ofList s), cs)
  | none => (scalar? (token cs).1).map fun v => (v, (token cs).2)

def value? : (depth : Nat) → List Char → Option (Json × List Char)
  | 0, cs => simple? cs
  | depth + 1, cs =>
    match cs with
    | '[' :: rest =>
      (items? (value? depth) (rest.length + 1) rest).map fun r => (.arr r.1, r.2)
    | c :: rest =>
      if c.toNat = 0x7B then
        (entries? (value? depth) (rest.length + 1) [] rest).map fun r =>
          ((Node.table .header r.1).toJson, r.2)
      else simple? cs
    | [] => none

def maxDepth : Nat := 80

/-! ## Documents -/

/-- A document that is being read: what was read, and the table that entries go to. -/
structure Draft where
  root : Entries
  current : List String

def endOfLine? (cs : List Char) : Option (List Char) := do
  match ← skipComment? (skipGap cs) with
  | [] => some []
  | cs => newline? cs

def header? (draft : Draft) (cs : List Char) : Option (Draft × List Char) :=
  match cs with
  | '[' :: '[' :: cs => do
    let (path, name, cs) ← path? cs
    match cs with
    | ']' :: ']' :: cs => return (⟨← openItem path name draft.root, path ++ [name]⟩, cs)
    | _ => none
  | '[' :: cs => do
    let (path, name, cs) ← path? cs
    match cs with
    | ']' :: cs => return (⟨← openTable path name draft.root, path ++ [name]⟩, cs)
    | _ => none
  | _ => none

def statement? (draft : Draft) (cs : List Char) : Option (Draft × List Char) := do
  let (path, name, cs) ← path? cs
  match cs with
  | '=' :: cs =>
    let (v, cs) ← value? maxDepth (skipGap cs)
    let root ← descend false (fun _ entries => assign path name v entries) draft.current .header
      draft.root
    return ({ draft with root }, cs)
  | _ => none

def statements? : (fuel : Nat) → Draft → List Char → Option Draft
  | 0, _, _ => none
  | fuel + 1, draft, cs => do
    match ← skip? cs with
    | [] => some draft
    | cs =>
      let (draft, cs) ← if cs.head? = some '[' then header? draft cs else statement? draft cs
      statements? fuel draft (← endOfLine? cs)

def skipMark : List Char → List Char
  | c :: cs => if c.toNat = 0xFEFF then cs else c :: cs
  | [] => []

def parse? (text : String) : Option Json :=
  let cs := skipMark text.toList
  (statements? (cs.length + 1) ⟨[], []⟩ cs).map fun draft => (Node.table .header draft.root).toJson

end Toml

end Liaison
