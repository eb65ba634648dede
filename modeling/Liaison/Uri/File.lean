import Liaison.File.Path
import Liaison.Uri.Parser

/-!
# URIs of files

The URI of an absolute path, and the path that a URI of this machine stands for.
-/

namespace Liaison

namespace Uri

def ofName (name : Bytes) : List Char :=
  (Percent.encode Percent.inName name).map fun b => Char.ofNat b.toNat

def ofPath? (p : Path) : Option Uri :=
  if Path.isAbsolute p then
    let names := (Path.names p).map ofName
    some ⟨"file".toList, some ⟨[], none, [], none⟩, .names (if names.isEmpty then [[]] else names),
      none, none⟩
  else none

def isLocal (u : Uri) : Bool :=
  match u.authority with
  | none => true
  | some a => a.host.isEmpty || a.host = "localhost".toList

/-- Does the path end in a letter with a colon or a bar, like a drive without its slash? -/
def endsInDrive (p : Path) : Bool :=
  match p.reverse with
  | b :: a :: _ :: _ => (b = 0x3A || b = 0x7C) && (Char.ofNat a.toNat).isAlpha
  | _ => false

def toPath? (u : Uri) : Option Path :=
  match u.path with
  | .names [] => none
  | .names names =>
    if isLocal u then
      let p := names.flatMap fun name => Path.slash :: Percent.decode (Utf8.encode name)
      some (if endsInDrive p then p ++ [Path.slash] else p)
    else none
  | .raw _ => none

end Uri

def fileUri? (p : Path) : Option String :=
  (Uri.ofPath? p).map fun u => String.ofList u.text

def uriPathBy? (r : Uri.BarRule) (uri : String) : Option Path :=
  (Uri.parseBy? r uri.toList).bind Uri.toPath?

def uriPath? (uri : String) : Option Path :=
  (Uri.parse? uri.toList).bind Uri.toPath?

end Liaison
