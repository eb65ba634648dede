import Liaison.Uri.Basic

/-!
# Reading URIs

A text is read as the URL standard says, with its leniency towards backslashes, dot segments, drive
letters and stray blanks.
-/

namespace Liaison

namespace Uri

/-! ## Preparation -/

def isMargin (c : Char) : Bool :=
  c.toNat ≤ 0x20

def isIgnored (c : Char) : Bool :=
  c = '\t' || c = '\n' || c = '\r'

def prepare (cs : List Char) : List Char :=
  (((cs.dropWhile isMargin).reverse.dropWhile isMargin).reverse).filter (!isIgnored ·)

def encode (keep : UInt8 → Bool) (cs : List Char) : List Char :=
  (Percent.encode keep (Utf8.encode cs)).map fun b => Char.ofNat b.toNat

/-! ## Schemes -/

def isSchemeChar (c : Char) : Bool :=
  c.isAlphanum || c = '+' || c = '-' || c = '.'

def scheme? (cs : List Char) : Option (List Char × List Char) :=
  match cs.takeWhile isSchemeChar, cs.dropWhile isSchemeChar with
  | first :: more, ':' :: rest =>
    if first.isAlpha then some ((first :: more).map Char.toLower, rest) else none
  | _, _ => none

inductive SchemeKind where
  | file
  | special (port : Nat)
  | other
deriving DecidableEq

def SchemeKind.of (scheme : List Char) : SchemeKind :=
  match String.ofList scheme with
  | "file" => file
  | "http" | "ws" => special 80
  | "https" | "wss" => special 443
  | "ftp" => special 21
  | _ => other

def SchemeKind.isSpecial (k : SchemeKind) : Bool :=
  k ≠ other

def SchemeKind.isSlash (k : SchemeKind) (c : Char) : Bool :=
  c = '/' || (c = '\\' && k.isSpecial)

/-! ## Query and fragment -/

def suffixes (k : SchemeKind) (cs : List Char) : Option (List Char) × Option (List Char) :=
  let fragment (cs : List Char) : Option (List Char) :=
    match cs with
    | '#' :: rest => some (encode Percent.inFragment rest)
    | _ => none
  match cs with
  | '?' :: rest =>
    (some (encode (Percent.inQuery k.isSpecial) (rest.takeWhile (· ≠ '#'))),
      fragment (rest.dropWhile (· ≠ '#')))
  | cs => (none, fragment cs)

def endsPath (c : Char) : Bool :=
  c = '?' || c = '#'

/-! ## Paths -/

def isDriveLetter : List Char → Bool
  | [c, d] => c.isAlpha && (d = ':' || d = '|')
  | _ => false

def plainDots : List Char → List Char
  | '%' :: '2' :: c :: rest =>
    if c = 'e' ∨ c = 'E' then '.' :: plainDots rest else '%' :: '2' :: c :: rest
  | c :: rest => c :: plainDots rest
  | [] => []

/-- A path that is being read: the segments so far, and whether a drive letter led it. -/
structure PathState where
  segments : List (List Char)
  drive : Bool

namespace PathState

/-- Takes in one segment; `last` says that no slash follows it. A segment of two dots drops the one
before it, unless that is a drive letter. -/
def segment (k : SchemeKind) (s : PathState) (cs : List Char) (last : Bool) : PathState :=
  let closing : List (List Char) := if last then [[]] else []
  if plainDots cs = ['.', '.'] then
    let kept :=
      match s.segments.getLast? with
      | some above => if isDriveLetter above then s.segments else s.segments.dropLast
      | none => []
    { s with segments := kept ++ closing }
  else if plainDots cs = ['.'] then
    { s with segments := s.segments ++ closing }
  else if k = .file ∧ s.segments.isEmpty ∧ isDriveLetter cs then
    ⟨[[cs.headD 'c', ':']], true⟩
  else { s with segments := s.segments ++ [encode Percent.inPath cs] }

end PathState

def splitPath (k : SchemeKind) : List Char → List (List Char)
  | [] => [[]]
  | c :: cs =>
    match splitPath k cs with
    | [] => [[c]]
    | first :: more => if k.isSlash c then [] :: first :: more else (c :: first) :: more

def segments (k : SchemeKind) (s : PathState) : List (List Char) → PathState
  | [] => s
  | [cs] => s.segment k cs true
  | cs :: d :: rest => segments k (s.segment k cs false) (d :: rest)

/-- Drops the empty names that others follow, as a path of a file has none at its start. -/
def dropEmptyNames : List (List Char) → List (List Char)
  | [] :: n :: rest => dropEmptyNames (n :: rest)
  | names => names

def readPath (k : SchemeKind) (cs : List Char) : PathState :=
  let s := segments k ⟨[], false⟩ (splitPath k cs)
  if k = .file then { s with segments := dropEmptyNames s.segments } else s

/-! ## Hosts -/

def isForbiddenInDomain (c : Char) : Bool :=
  c.toNat ≤ 0x20 || c.toNat = 0x7F ||
    ['#', '/', ':', '<', '>', '?', '@', '[', '\\', ']', '^', '|', '%'].contains c

def isForbiddenInHost (c : Char) : Bool :=
  ['\x00', ' ', '#', '/', ':', '<', '>', '?', '@', '[', '\\', ']', '^', '|'].contains c

def bracketed? (cs : List Char) : Option (List Char) :=
  if cs.getLast? = some ']' then some (cs.map Char.toLower) else none

/-- Reads the host of a special scheme. It may not be empty. -/
def domain? (cs : List Char) : Option (List Char) :=
  if cs.head? = some '[' then bracketed? cs
  else
    let host := (Utf8.decodeLossy (Percent.decode (Utf8.encode cs))).map Char.toLower
    if host.isEmpty ∨ host.any isForbiddenInDomain then none else some host

def plainHost? (cs : List Char) : Option (List Char) :=
  if cs.head? = some '[' then bracketed? cs
  else if cs.any isForbiddenInHost then none
  else some (encode Percent.notControl cs)

/-- Splits off the host, which ends at a colon that is not between brackets. -/
def splitHost : (brackets : Bool) → List Char → List Char × List Char
  | _, [] => ([], [])
  | brackets, c :: cs =>
    if c = ':' ∧ ¬ brackets then ([], c :: cs)
    else
      let inside := if c = '[' then true else if c = ']' then false else brackets
      (c :: (splitHost inside cs).1, (splitHost inside cs).2)

/-- Reads the port after a colon. The port that the scheme implies is left out. -/
def port? (k : SchemeKind) : List Char → Option (Option Nat)
  | ':' :: digits =>
    if digits.isEmpty then some none
    else if digits.all Char.isDigit then
      let n := digits.foldl (fun n c => n * 10 + (c.toNat - '0'.toNat)) 0
      if 0xFFFF < n then none
      else if k = .special n then some none
      else some (some n)
    else none
  | _ => some none

def splitUser (cs : List Char) : Option (List Char) × List Char :=
  match cs.reverse.dropWhile (· ≠ '@') with
  | [] => (none, cs)
  | _ :: user => (some user.reverse, (cs.reverse.takeWhile (· ≠ '@')).reverse)

def credentials (user : List Char) : List Char × Option (List Char) :=
  let name := encode Percent.inUser (user.takeWhile (· ≠ ':'))
  match user.dropWhile (· ≠ ':') with
  | [] => (name, none)
  | _ :: password =>
    (name, if password.isEmpty then none else some (encode Percent.inUser password))

def authority? (k : SchemeKind) (cs : List Char) : Option Authority :=
  let (user, rest) := splitUser cs
  let (hostText, portText) := splitHost false rest
  if user = some [] ∧ rest.isEmpty then none
  else do
    let host ← if k.isSpecial then domain? hostText else plainHost? hostText
    let port ← port? k portText
    let (name, password) := credentials (user.getD [])
    if host.isEmpty ∧ (!portText.isEmpty ∨ !name.isEmpty ∨ password.isSome) then none
    else some ⟨name, password, host, port⟩

/-! ## URIs -/

/-- What becomes of a drive letter with a bar that follows an empty host, as in `file:///C|/x`. By
the standard the bar becomes a colon, as it does everywhere else at the start of a path. -/
inductive BarRule where
  | standard
  | kept

/-- Reads the path behind an empty host, from its slash on. Where the bar is kept the slash counts,
so that no name stands at the start. -/
def BarRule.readPath : BarRule → List Char → PathState
  | standard, cs => Uri.readPath .file (cs.drop 1)
  | kept, cs => Uri.readPath .file cs

/-- Reads what follows the scheme `file`. A host that names this machine is left out, and so is one
in front of a drive letter. -/
def file? (r : BarRule) (cs : List Char) : Option Uri :=
  let k := SchemeKind.file
  let build (host : List Char) (s : PathState) (rest : List Char) : Uri :=
    let (query, fragment) := suffixes k rest
    ⟨"file".toList, some ⟨[], none, if s.drive then [] else host, none⟩, .names s.segments, query,
      fragment⟩
  let plain (cs : List Char) : Uri :=
    build [] (readPath k (cs.takeWhile (!endsPath ·))) (cs.dropWhile (!endsPath ·))
  let behindHost (cs : List Char) : Uri :=
    build [] (r.readPath (cs.takeWhile (!endsPath ·))) (cs.dropWhile (!endsPath ·))
  match cs with
  | a :: b :: rest =>
    if k.isSlash a ∧ k.isSlash b then
      let ends (c : Char) : Bool := k.isSlash c || endsPath c
      let hostText := rest.takeWhile (!ends ·)
      let after := rest.dropWhile (!ends ·)
      if isDriveLetter hostText then some (plain rest)
      else if hostText.isEmpty then some (behindHost after)
      else do
        let host ← domain? hostText
        if host = "localhost".toList then return behindHost after
        let pathText := after.takeWhile (!endsPath ·)
        return build host (readPath k (pathText.drop 1)) (after.dropWhile (!endsPath ·))
    else if k.isSlash a then some (plain (b :: rest))
    else some (plain cs)
  | [a] => if k.isSlash a then some (plain []) else some (plain cs)
  | [] => some (plain [])

def afterSlashes? (scheme : List Char) (k : SchemeKind) (cs : List Char) : Option Uri := do
  let ends (c : Char) : Bool := k.isSlash c || endsPath c
  let authority ← authority? k (cs.takeWhile (!ends ·))
  let after := cs.dropWhile (!ends ·)
  let pathText := after.takeWhile (!endsPath ·)
  let (query, fragment) := suffixes k (after.dropWhile (!endsPath ·))
  let names :=
    if pathText.isEmpty ∧ ¬ k.isSpecial then []
    else (readPath k (pathText.drop 1)).segments
  return ⟨scheme, some authority, .names names, query, fragment⟩

def other? (scheme cs : List Char) : Option Uri :=
  let k := SchemeKind.other
  match cs with
  | '/' :: '/' :: rest => afterSlashes? scheme k rest
  | '/' :: rest =>
    let (query, fragment) := suffixes k (rest.dropWhile (!endsPath ·))
    some ⟨scheme, none, .names (readPath k (rest.takeWhile (!endsPath ·))).segments, query, fragment⟩
  | cs =>
    let (query, fragment) := suffixes k (cs.dropWhile (!endsPath ·))
    some ⟨scheme, none, .raw (encode Percent.notControl (cs.takeWhile (!endsPath ·))), query,
      fragment⟩

def parseBy? (r : BarRule) (text : List Char) : Option Uri := do
  let (scheme, rest) ← scheme? (prepare text)
  match SchemeKind.of scheme with
  | .file => file? r rest
  | .special port =>
    afterSlashes? scheme (.special port) (rest.dropWhile (SchemeKind.isSlash (.special port)))
  | .other => other? scheme rest

/-- Reads a URI as the client does: it takes `file:///C|/x` for the path `/C|/x`. -/
def parse? (text : List Char) : Option Uri :=
  parseBy? .kept text

end Uri

end Liaison
