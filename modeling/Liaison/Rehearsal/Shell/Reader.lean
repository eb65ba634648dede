import Liaison.Rehearsal.Shell.Syntax

/-!
# Reading shell commands

Text becomes a command. A reader that gets a share of text returns what it read and what follows; it
fails on what is no command.
-/

namespace Liaison.Shell

/-! ## Characters -/

def isBreak (c : Char) : Bool :=
  " \t\n;&|<>()".toList.contains c

def isNameChar (c : Char) : Bool :=
  c.isAlphanum || c = '_'

def skipBlanks : List Char → List Char
  | ' ' :: cs | '\t' :: cs | '\\' :: '\n' :: cs => skipBlanks cs
  | '#' :: cs => cs.dropWhile (· ≠ '\n')
  | cs => cs

def skipLines : (fuel : Nat) → List Char → List Char
  | 0, cs => cs
  | fuel + 1, cs =>
    match skipBlanks cs with
    | '\n' :: cs => skipLines fuel cs
    | cs => cs

def keywords : List String :=
  ["if", "then", "elif", "else", "fi", "while", "until", "for", "do", "done", "in", "\x7b", "\x7d", "!"]

def keyword? (cs : List Char) : Option (String × List Char) :=
  let name := String.ofList (cs.takeWhile (!isBreak ·))
  if name ∈ keywords then some (name, cs.dropWhile (!isBreak ·)) else none

def splitSum : (depth : Nat) → List Char → Option (List Char × List Char)
  | _, [] => none
  | 0, ')' :: ')' :: cs => some ([], cs)
  | depth, c :: cs =>
    let deeper := if c = '(' then depth + 1 else if c = ')' then depth - 1 else depth
    (splitSum deeper cs).map fun (inner, rest) => (c :: inner, rest)

def redirection? (cs : List Char) : Option (Nat × Char × List Char) :=
  let digits := cs.takeWhile Char.isDigit
  let number (usual : Nat) := ((String.ofList digits).toNat?).getD usual
  match cs.dropWhile Char.isDigit with
  | '>' :: '>' :: rest | '>' :: rest => some (number 1, '>', rest)
  | '<' :: rest => some (number 0, '<', rest)
  | _ => none

def setting? (cs : List Char) : Option (String × List Char) :=
  let name := cs.takeWhile isNameChar
  match name, cs.dropWhile isNameChar with
  | first :: _, '=' :: rest => if first.isDigit then none else some (String.ofList name, rest)
  | _, _ => none

def wrap (redirects : List (Nat × Target × Word)) (c : Command) : Command :=
  redirects.foldr (fun (number, target, word) c => .redirect number target word c) c

/-! ## Readers -/

mutual

def readDollar (quoted : Bool) : (fuel : Nat) → List Char → Option (Word × List Char)
  | 0, _ => none
  | fuel + 1, cs =>
    match cs with
    | '(' :: '(' :: rest => do
      let (inner, rest) ← splitSum 0 rest
      let (pieces, _) ← readQuoted false fuel inner
      return ([(quoted, .sum pieces)], rest)
    | '(' :: rest => do
      let (c, rest) ← readList fuel rest
      match skipLines fuel rest with
      | ')' :: rest => return ([(quoted, .printed c)], rest)
      | _ => none
    | '\x7b' :: rest =>
      let name := String.ofList (rest.takeWhile fun c => c ≠ '\x7d' && c ≠ ':' && c ≠ '-')
      match rest.dropWhile fun c => c ≠ '\x7d' && c ≠ ':' && c ≠ '-' with
      | '\x7d' :: rest => some ([(quoted, .value name [])], rest)
      | ':' :: '-' :: rest | '-' :: rest => do
        let inner := rest.takeWhile (· ≠ '\x7d')
        let (pieces, _) ← readQuoted false fuel inner
        return ([(quoted, .value name pieces)], rest.drop (inner.length + 1))
      | _ => none
    | c :: rest =>
      if "$?#@*!".toList.contains c || c.isDigit then some ([(quoted, .value (String.ofList [c]) [])], rest)
      else if isNameChar c then
        some ([(quoted, .value (String.ofList (cs.takeWhile isNameChar)) [])], cs.dropWhile isNameChar)
      else some ([(quoted, .text "$")], cs)
    | [] => some ([(quoted, .text "$")], [])

def readBackquoted (quoted : Bool) : (fuel : Nat) → List Char → Option (Word × List Char)
  | 0, _ => none
  | fuel + 1, cs => do
    let inner := cs.takeWhile (· ≠ '\x60')
    let (c, _) ← readList fuel inner
    return ([(quoted, .printed c)], cs.drop (inner.length + 1))

/-- Reads the inner part of a text in double quotes. The closing quote has to be there if `closed`. -/
def readQuoted (closed : Bool) : (fuel : Nat) → List Char → Option (Word × List Char)
  | 0, _ => none
  | fuel + 1, cs =>
    match cs with
    | [] => if closed then none else some ([], [])
    | '"' :: rest => if closed then some ([], rest) else do
      let (more, rest) ← readQuoted closed fuel rest
      return ((true, .text "\"") :: more, rest)
    | '\\' :: '\n' :: rest => readQuoted closed fuel rest
    | '\\' :: c :: rest => do
      let (more, rest) ← readQuoted closed fuel rest
      let text := if "$\x60\"\\".toList.contains c then [c] else ['\\', c]
      return ((true, .text (String.ofList text)) :: more, rest)
    | '$' :: rest => do
      let (pieces, rest) ← readDollar true fuel rest
      let (more, rest) ← readQuoted closed fuel rest
      return (pieces ++ more, rest)
    | '\x60' :: rest => do
      let (pieces, rest) ← readBackquoted true fuel rest
      let (more, rest) ← readQuoted closed fuel rest
      return (pieces ++ more, rest)
    | c :: rest => do
      let (more, rest) ← readQuoted closed fuel rest
      return ((true, .text (String.ofList [c])) :: more, rest)

def readWord : (fuel : Nat) → List Char → Option (Word × List Char)
  | 0, _ => none
  | fuel + 1, cs =>
    match cs with
    | [] => some ([], [])
    | '\\' :: '\n' :: rest => readWord fuel rest
    | '\\' :: c :: rest => do
      let (more, rest) ← readWord fuel rest
      return ((true, .text (String.ofList [c])) :: more, rest)
    | '\x27' :: rest => do
      let inner := rest.takeWhile (· ≠ '\x27')
      let (more, rest) ← readWord fuel (rest.drop (inner.length + 1))
      return ((true, .text (String.ofList inner)) :: more, rest)
    | '"' :: rest => do
      let (pieces, rest) ← readQuoted true fuel rest
      let (more, rest) ← readWord fuel rest
      return ((true, .text "") :: pieces ++ more, rest)
    | '$' :: rest => do
      let (pieces, rest) ← readDollar false fuel rest
      let (more, rest) ← readWord fuel rest
      return (pieces ++ more, rest)
    | '\x60' :: rest => do
      let (pieces, rest) ← readBackquoted false fuel rest
      let (more, rest) ← readWord fuel rest
      return (pieces ++ more, rest)
    | c :: rest =>
      if isBreak c then some ([], cs)
      else do
        let (more, rest) ← readWord fuel rest
        return ((false, .text (String.ofList [c])) :: more, rest)

def readWords : (fuel : Nat) → List Char → Option (List Word × List Char)
  | 0, _ => none
  | fuel + 1, cs =>
    match skipBlanks cs with
    | [] => some ([], [])
    | c :: rest =>
      if isBreak c then some ([], c :: rest)
      else do
        let (word, rest) ← readWord fuel (c :: rest)
        let (more, rest) ← readWords fuel rest
        return (word :: more, rest)

def readRedirects : (fuel : Nat) → List Char → Option (List (Nat × Target × Word) × List Char)
  | 0, _ => none
  | fuel + 1, cs =>
    match redirection? (skipBlanks cs) with
    | none => some ([], cs)
    | some (number, _, '&' :: '-' :: rest) => do
      let (more, rest) ← readRedirects fuel rest
      return ((number, .nowhere, []) :: more, rest)
    | some (number, _, '&' :: rest) => do
      let digits := rest.takeWhile Char.isDigit
      let other ← (String.ofList digits).toNat?
      let (more, rest) ← readRedirects fuel (rest.drop digits.length)
      return ((number, .stream other, []) :: more, rest)
    | some (number, _, rest) => do
      let (word, rest) ← readWord fuel (skipBlanks rest)
      let (more, rest) ← readRedirects fuel rest
      return ((number, .file, word) :: more, rest)

def readSimple (sets : List (String × Word)) (words : List Word)
    (redirects : List (Nat × Target × Word)) : (fuel : Nat) → List Char → Option (Command × List Char)
  | 0, _ => none
  | fuel + 1, cs =>
    let cs := skipBlanks cs
    match redirection? cs, (if words.isEmpty then setting? cs else none), cs with
    | some _, _, _ => do
      let (more, rest) ← readRedirects fuel cs
      readSimple sets words (redirects ++ more) fuel rest
    | none, some (name, rest), _ => do
      let (word, rest) ← readWord fuel rest
      readSimple (sets ++ [(name, word)]) words redirects fuel rest
    | none, none, c :: _ =>
      if isBreak c then some (wrap redirects (.simple sets words), cs)
      else do
        let (word, rest) ← readWord fuel cs
        readSimple sets (words ++ [word]) redirects fuel rest
    | none, none, [] => some (wrap redirects (.simple sets words), [])

def readBlock (keyword : String) : (fuel : Nat) → List Char → Option (Command × List Char)
  | 0, _ => none
  | fuel + 1, cs => do
    let (c, rest) ← readList fuel cs
    let (found, rest) ← keyword? (skipLines fuel rest)
    if found = keyword then return (c, rest) else none

def readBranch : (fuel : Nat) → List Char → Option (Command × List Char)
  | 0, _ => none
  | fuel + 1, cs => do
    let (condition, rest) ← readBlock "then" fuel cs
    let (positive, rest) ← readList fuel rest
    let (found, rest) ← keyword? (skipLines fuel rest)
    if found = "fi" then return (.branch condition positive .nothing, rest)
    else if found = "else" then do
      let (negative, rest) ← readBlock "fi" fuel rest
      return (.branch condition positive negative, rest)
    else if found = "elif" then do
      let (negative, rest) ← readBranch fuel rest
      return (.branch condition positive negative, rest)
    else none

def readCommand : (fuel : Nat) → List Char → Option (Command × List Char)
  | 0, _ => none
  | fuel + 1, cs =>
    let cs := skipBlanks cs
    let compound (read : Option (Command × List Char)) : Option (Command × List Char) := do
      let (c, rest) ← read
      let (redirects, rest) ← readRedirects fuel rest
      return (wrap redirects c, rest)
    match keyword? cs, cs with
    | some ("if", rest), _ => compound (readBranch fuel rest)
    | some ("while", rest), _ => compound do
      let (condition, rest) ← readBlock "do" fuel rest
      let (body, rest) ← readBlock "done" fuel rest
      return (.loop false condition body, rest)
    | some ("until", rest), _ => compound do
      let (condition, rest) ← readBlock "do" fuel rest
      let (body, rest) ← readBlock "done" fuel rest
      return (.loop true condition body, rest)
    | some ("for", rest), _ => compound do
      let rest := skipBlanks rest
      let name := String.ofList (rest.takeWhile isNameChar)
      let ("in", rest) ← keyword? (skipLines fuel (rest.dropWhile isNameChar)) | none
      let (words, rest) ← readWords fuel rest
      let rest := match skipBlanks rest with
        | ';' :: rest => rest
        | rest => rest
      let ("do", rest) ← keyword? (skipLines fuel rest) | none
      let (body, rest) ← readBlock "done" fuel rest
      return (.each name words body, rest)
    | some ("\x7b", rest), _ => compound (readBlock "\x7d" fuel rest)
    | some _, _ => none
    | none, '(' :: rest => compound do
      let (c, rest) ← readList fuel rest
      match skipLines fuel rest with
      | ')' :: rest => return (.subshell c, rest)
      | _ => none
    | none, _ => readSimple [] [] [] fuel cs

def readPipe : (fuel : Nat) → List Char → Option (Command × List Char)
  | 0, _ => none
  | fuel + 1, cs =>
    match keyword? (skipBlanks cs) with
    | some ("!", rest) => do
      let (c, rest) ← readPipe fuel rest
      return (.negate c, rest)
    | _ => do
      let (c, rest) ← readCommand fuel cs
      match skipBlanks rest with
      | '|' :: '|' :: _ => return (c, rest)
      | '|' :: rest => do
        let (next, rest) ← readPipe fuel (skipLines fuel rest)
        return (.pipe c next, rest)
      | _ => return (c, rest)

def readChain (first : Command) : (fuel : Nat) → List Char → Option (Command × List Char)
  | 0, _ => none
  | fuel + 1, cs =>
    match skipBlanks cs with
    | '&' :: '&' :: rest => do
      let (next, rest) ← readPipe fuel (skipLines fuel rest)
      readChain (.both first next) fuel rest
    | '|' :: '|' :: rest => do
      let (next, rest) ← readPipe fuel (skipLines fuel rest)
      readChain (.either first next) fuel rest
    | rest => some (first, rest)

def readList : (fuel : Nat) → List Char → Option (Command × List Char)
  | 0, _ => none
  | fuel + 1, cs =>
    let cs := skipLines fuel cs
    let ends : Bool :=
      match keyword? cs, cs with
      | some (name, _), _ => name ∈ ["then", "elif", "else", "fi", "do", "done", "in", "\x7d"]
      | none, ')' :: _ => true
      | none, rest => rest.isEmpty
    if ends then some (.nothing, cs)
    else do
      let (first, rest) ← readPipe fuel cs
      let (first, rest) ← readChain first fuel rest
      match skipBlanks rest with
      | ';' :: rest | '\n' :: rest => do
        let (more, rest) ← readList fuel rest
        return (.sequence first more, rest)
      | '&' :: rest => do
        let (more, rest) ← readList fuel rest
        return (.sequence (.background first) more, rest)
      | rest => return (first, rest)

end

def read? (text : String) : Option Command :=
  let cs := text.toList
  match readList (8 * cs.length + 16) cs with
  | some (c, rest) => if (skipLines (cs.length + 1) rest).isEmpty then some c else none
  | none => none

end Liaison.Shell
