import Liaison.File.Path
import Liaison.Table

/-!
# File trees

A tree of directories and files, as far as a program can see it, and the directory that relative
paths are taken from.
-/

namespace Liaison

inductive FileFault where
  | notFound
  | notDirectory
  | isDirectory
  | nameTooLong
  | notText
  | emptyPath
  | other (text : String)
deriving DecidableEq

def FileFault.message : FileFault → String
  | notFound => "No such file or directory (os error 2)"
  | notDirectory => "Not a directory (os error 20)"
  | isDirectory => "Is a directory (os error 21)"
  | nameTooLong => "File name too long (os error 36)"
  | notText => "stream did not contain valid UTF-8"
  | emptyPath => "cannot make an empty path absolute"
  | other text => text

inductive FileEntry where
  | file (content : Bytes)
  | directory
deriving DecidableEq

/-- The entries by their names from the root down, and the names of the working directory. The root
itself is always there. -/
structure FileTree where
  entries : List (List Bytes × FileEntry)
  working : List Bytes

/-- What can be asked about paths without opening anything: which of them lead somewhere, and which of
them to a directory. -/
structure FileView where
  contains : Path → Bool
  isDirectory : Path → Bool

namespace FileTree

def entry? (t : FileTree) : List Bytes → Option FileEntry
  | [] => some .directory
  | names => t.entries.lookup names

def walk (t : FileTree) : (place : List Bytes) → List Bytes → Except FileFault (List Bytes)
  | place, [] => .ok place
  | place, name :: names =>
    match t.entry? place with
    | some .directory =>
      if name = Path.dotDot then walk t place.dropLast names
      else if Path.isSilent name then walk t place names
      else if 255 < name.length then .error .nameTooLong
      else
        match t.entry? (place ++ [name]) with
        | some _ => walk t (place ++ [name]) names
        | none => .error .notFound
    | some (.file _) => .error .notDirectory
    | none => .error .notFound

def place (t : FileTree) (p : Path) : Except FileFault (List Bytes) :=
  if p.isEmpty then .error .notFound
  else t.walk (if Path.isAbsolute p then [] else t.working) (Path.pieces p)

def find (t : FileTree) (p : Path) : Except FileFault FileEntry := do
  match t.entry? (← t.place p) with
  | some e => return e
  | none => throw .notFound

def contains (t : FileTree) (p : Path) : Bool :=
  (t.find p).isOk

def isDirectory (t : FileTree) (p : Path) : Bool :=
  match t.find p with
  | .ok .directory => true
  | _ => false

def view (t : FileTree) : FileView :=
  ⟨t.contains, t.isDirectory⟩

def readBytes (t : FileTree) (p : Path) : Except FileFault Bytes :=
  match t.find p with
  | .ok (.file content) => .ok content
  | .ok .directory => .error .isDirectory
  | .error e => .error e

def readText (t : FileTree) (p : Path) : Except FileFault String := do
  match Utf8.toString? (← t.readBytes p) with
  | some s => return s
  | none => throw .notText

def workingPath (t : FileTree) : Path :=
  if t.working.isEmpty then [Path.slash] else Path.ofPieces ([] :: t.working)

/-! ## Changing -/

def makeDirectories (t : FileTree) (names : List Bytes) : FileTree :=
  (List.range names.length).foldl
    (fun t n =>
      let place := names.take (n + 1)
      if (t.entries.lookup place).isSome then t
      else { t with entries := t.entries ++ [(place, .directory)] })
    t

def remove (t : FileTree) (names : List Bytes) : FileTree :=
  { t with entries := t.entries.filter (·.1 ≠ names) }

def write (t : FileTree) (names : List Bytes) (content : Bytes) : FileTree :=
  let t := (t.makeDirectories names.dropLast).remove names
  { t with entries := t.entries ++ [(names, .file content)] }

/-- The tree of nothing but the way down to the working directory. -/
def ofWorking (working : List Bytes) : FileTree :=
  (⟨[], working⟩ : FileTree).makeDirectories working

end FileTree

end Liaison
