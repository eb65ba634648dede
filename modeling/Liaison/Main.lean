import Liaison.Rehearsal.Launched

/-!
# The command line

The program looks at its words, its variables and the files around it, and prints what the query comes
to. It starts no process of its own: the servers are those whose part the library can play.
-/

namespace Liaison.CommandLine

/-! ## What the program finds -/

def namesOf (path : String) : List Bytes :=
  Path.plainNames (Path.ofString path)

/-- Adds a file with its content to a tree, or a directory, if there is one. -/
def addEntry (tree : FileTree) (path : String) : IO FileTree := do
  try
    let content ← IO.FS.readBinFile ⟨path⟩
    return tree.write (namesOf path) content.toList
  catch _ => return tree

def addListing (tree : FileTree) (path : String) : IO FileTree := do
  try
    let here ← IO.currentDir
    let entries ← (here / path).readDir
    entries.foldlM (fun tree entry => do
      let names := namesOf path ++ [Utf8.ofString entry.fileName]
      if (tree.entries.lookup names).isSome then return tree
      return if ← entry.path.isDir then tree.makeDirectories names else tree.write names []) tree
  catch _ => return tree

def waysDown (p : Path) : List String :=
  (List.range (Path.plainNames p).length.succ).map fun n =>
    "/" ++ Path.display (Path.ofPieces ((Path.plainNames p).take n))

/-- Adds what the search for a path looks at: the directories above it, and the file itself. -/
def addSearch (tree : FileTree) (path : Path) : IO FileTree := do
  let above := (Path.parent? path).getD path
  let tree ← (waysDown above).foldlM addListing tree
  addEntry tree (Path.display path)

def knownValues (tree : FileTree) : IO (List (String × String)) := do
  let texts := tree.entries.filterMap fun (_, entry) => match entry with
    | .file content => Utf8.toString? content
    | .directory => none
  (texts.flatMap referenced).filterMapM fun name => do
    return (← IO.getEnv name).map (name, ·)

/-- The files that a word may name: one by the whole word, or one by what follows an equals sign. -/
def candidates (word : String) : List Path :=
  (word :: (word.splitOn "=").drop 1).map Path.ofString

def surroundings (words : List String) : IO Surroundings := do
  let here := (← IO.currentDir).toString
  let home := Path.ofString ((← IO.getEnv "HOME").getD "")
  let named := (words.flatMap candidates).map (Path.absolute (Path.ofString here))
  let tree ← (Settings.defaultPath home :: named).foldlM addSearch (FileTree.ofWorking (namesOf here))
  let known ← knownValues tree
  return ⟨fun name => known.lookup name, tree, home⟩

end Liaison.CommandLine

open Liaison Liaison.CommandLine in
def main (words : List String) : IO UInt32 := do
  let around ← surroundings words
  let scene : Scene := ⟨around.files, Role.ofCommand?⟩
  let (printout, _) := scene.run around.env around.home words
  IO.print printout.output
  IO.eprint printout.errors
  return printout.status.toUInt32
