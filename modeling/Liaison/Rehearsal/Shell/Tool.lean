import Liaison.Rehearsal.Shell.State
import Liaison.Rehearsal.Shell.Sum

/-!
# Tools

The commands that do not run other commands.
-/

namespace Liaison.Shell

/-! ## Reading numbers and paths -/

def microseconds? (text : String) : Option Nat := do
  let cs := text.toList
  let whole := cs.takeWhile Char.isDigit
  let fraction ← match cs.dropWhile Char.isDigit with
    | [] | ['s'] => some []
    | '.' :: rest => some (rest.takeWhile Char.isDigit)
    | _ => none
  if whole.isEmpty && fraction.isEmpty then none
  else
    let number (ds : List Char) : Nat := ((integer?.natural? ds).getD 0)
    return 1000000 * number whole + number ((fraction ++ List.replicate 6 '0').take 6)

def placeOf? (files : FileTree) (name : String) : Option (List Bytes) :=
  let p := Path.ofString name
  match Path.fileName? p with
  | none => none
  | some last =>
    match files.place (((Path.parent? p).filter (!·.isEmpty)).getD Path.dot) with
    | .ok place => some (place ++ [last])
    | .error _ => none

def signalNumber? (name : String) : Option Nat :=
  match name.toNat? with
  | some n => some n
  | none =>
    (ExitStatus.signalNames.findIdx? fun s => s = name || s = "SIG" ++ name).map (· + 1)

/-- The name of a signal, without its first three letters, or of the end. -/
def signalName (text : String) : String :=
  match text.toNat? with
  | some 0 => "EXIT"
  | some (n + 1) => ((ExitStatus.signalNames.getD n "SIG").drop 3).toString
  | none => if text.startsWith "SIG" then (text.drop 3).toString else text

def mildSignals : List Nat := [17, 18, 23, 28]

def stoppingSignals : List Nat := [19, 20, 21, 22]

/-! ## Tests -/

def holds (s : State) : List String → Bool
  | [] => false
  | ["!", a] => a = ""
  | [a] => a ≠ ""
  | [op, a] =>
    match op with
    | "-n" => a ≠ ""
    | "-z" => a = ""
    | "-d" => s.files.isDirectory (Path.ofString a)
    | "-e" => s.files.contains (Path.ofString a)
    | "-f" | "-r" | "-w" => (s.files.readBytes (Path.ofString a)).isOk
    | "-s" => match s.files.readBytes (Path.ofString a) with
      | .ok bs => !bs.isEmpty
      | .error _ => false
    | _ => false
  | "!" :: args => !holds s args
  | [a, op, b] =>
    let m := (integer? a).getD 0
    let n := (integer? b).getD 0
    match op with
    | "=" | "==" => a = b
    | "!=" => a ≠ b
    | "-eq" => m = n
    | "-ne" => m ≠ n
    | "-lt" => decide (m < n)
    | "-le" => decide (m ≤ n)
    | "-gt" => decide (n < m)
    | "-ge" => decide (n ≤ m)
    | "-a" => a ≠ "" && b ≠ ""
    | "-o" => a ≠ "" || b ≠ ""
    | _ => false
  | _ => false

/-! ## Streams -/

/-- The bytes of the named files, or of the input, and a complaint about each file that cannot be
read. -/
def gather (s : State) (tool : String) : List String → State × Bytes
  | [] =>
    let (bs, s) := s.takeInput
    (s, bs)
  | names =>
    names.foldl (fun (s, bs) name =>
      if name = "-" then
        let (more, s) := s.takeInput
        (s, bs ++ more)
      else
        match s.files.readBytes (Path.ofString name) with
        | .ok more => (s, bs ++ more)
        | .error fault =>
          let text := ((fault.message.splitOn " (os error").headD "")
          (s.complain (tool ++ ": " ++ name ++ ": " ++ text) 1, bs))
      (s.ends 0, [])

def linesOf (bs : Bytes) : List Bytes :=
  let (lines, last) := bs.foldl (fun ((lines, last) : List Bytes × Bytes) b =>
    if b = 10 then ((b :: last).reverse :: lines, []) else (lines, b :: last)) ([], [])
  (if last.isEmpty then lines else last.reverse :: lines).reverse

def amount : List String → Bool × Nat × List String
  | "-n" :: n :: names => (true, (n.toNat?.getD 10), names)
  | "-c" :: n :: names => (false, (n.toNat?.getD 0), names)
  | first :: names =>
    match (first.drop 1).toString.toNat?, (first.drop 2).toString.toNat? with
    | some n, _ => if first.startsWith "-" then (true, n, names) else (true, 10, first :: names)
    | none, some n =>
      if first.startsWith "-n" then (true, n, names)
      else if first.startsWith "-c" then (false, n, names)
      else (true, 10, first :: names)
    | none, none => (true, 10, first :: names)
  | [] => (true, 10, [])

/-- The first lines or bytes. It does not wait for more input once it has enough. -/
def head (s : State) (args : List String) : State :=
  let (byLines, n, names) := amount args
  if names = ["/dev/zero"] then (s.ends 0).say (List.replicate n 0)
  else
    let (after, bs) := gather s "head" names
    let most := if byLines then ((linesOf bs).take n).flatten else bs.take n
    let enough := if byLines then n ≤ (bs.filter (· = 10)).length else n ≤ bs.length
    let after := if enough then { after with halt := s.halt } else after
    after.say most

def tail (s : State) (args : List String) : State :=
  let (byLines, n, names) := amount args
  let (s, bs) := gather s "tail" names
  if s.halt.isSome then s
  else if byLines then
    let lines := linesOf bs
    s.say (lines.drop (lines.length - n)).flatten
  else s.say (bs.drop (bs.length - n))

def count (s : State) (args : List String) : State :=
  let (s, bs) := gather s "wc" (args.filter (!·.startsWith "-"))
  let n := if args.contains "-l" then (bs.filter (· = 10)).length else bs.length
  if s.halt.isSome then s else s.say (Utf8.ofString (toString n ++ "\n"))

def characters (text : String) : Bytes :=
  expand (unescape (text.length + 1) text.toList).1
where
  expand : Bytes → Bytes
    | a :: 45 :: b :: rest => (List.range (b.toNat + 1 - a.toNat)).map (fun n => a + n.toUInt8) ++ expand rest
    | b :: rest => b :: expand rest
    | [] => []

def exchange (s : State) (args : List String) : State :=
  let (bs, s) := s.takeInput
  match args with
  | ["-d", set] => (s.say (bs.filter (!(characters set).contains ·))).ends 0
  | [set, other] =>
    let others := characters other
    let last := others.getLast?
    let change (b : UInt8) : UInt8 :=
      match (characters set).findIdx? (· = b) with
      | some n => (others[n]?.or last).getD b
      | none => b
    (s.say (bs.map change)).ends 0
  | _ => s.ends 1

def numbers (s : State) (args : List String) : State :=
  let (first, step, final) : Int × Int × Int :=
    match args.map (integer? · |>.getD 1) with
    | [n] => (1, 1, n)
    | [m, n] => (m, 1, n)
    | [m, k, n] => (m, k, n)
    | _ => (1, 1, 0)
  let size := if step = 0 then 0 else ((final - first) / step + 1).toNat
  (s.say (Utf8.ofString (String.join ((List.range size).map fun (i : Nat) =>
    toString (first + step * (i : Int)) ++ "\n")))).ends 0

def listing (s : State) (args : List String) : State :=
  let name := ((args.filter (!·.startsWith "-")).head?).getD "."
  match s.files.place (Path.ofString name) with
  | .error _ =>
    s.complain ("ls: cannot access '" ++ name ++ "': No such file or directory") 2
  | .ok place =>
    match s.files.entry? place with
    | some (.file _) => (s.say (Utf8.ofString (name ++ "\n"))).ends 0
    | _ =>
      let names := s.files.entries.filterMap fun (names, _) =>
        match names.getLast? with
        | some last => if names.dropLast = place && last.head? ≠ some 46 then some last else none
        | none => none
      let table : Table Bytes Unit := .ofList (names.map (·, ()))
      (s.say (table.flatMap fun (name, _) => name ++ [10])).ends 0

/-! ## Variables -/

/-- Splits a line at blanks into so many parts; the last one holds the rest. -/
def parts (n : Nat) (text : String) : List String :=
  let isBlank (c : Char) : Bool := c = ' ' || c = '\t'
  let trimmed := (text.toList.dropWhile isBlank).reverse.dropWhile isBlank |>.reverse
  if n ≤ 1 then [String.ofList trimmed]
  else
    String.ofList (trimmed.takeWhile (!isBlank ·)) ::
      parts (n - 1) (String.ofList (trimmed.dropWhile (!isBlank ·)))

def readLine (s : State) (args : List String) : State :=
  let isRaw := args.head? = some "-r"
  let names := if isRaw then args.tail else args
  let (line, isEnded, s) := s.takeLine
  if s.halt.isSome then s
  else
    let text := Utf8.toStringLossy line
    let text := if isRaw then text else String.ofList (text.toList.filter (· ≠ '\\'))
    let values := (names.zip (parts names.length text)).foldl
      (fun values (name, value) => values.insert name value) s.values
    { s with values := values, status := if isEnded then 0 else 1 }

def setAll (s : State) (args : List String) : State :=
  args.foldl (fun s arg =>
    match arg.splitOn "=" with
    | name :: value :: more => { s with values := s.values.insert name ("=".intercalate (value :: more)) }
    | _ => s) (s.ends 0)

def goTo (s : State) (name : String) : State :=
  match s.files.place (Path.ofString name) with
  | .ok place =>
    if s.files.entry? place = some .directory then
      { s with files := { s.files with working := place }, status := 0 }
    else s.complain (s.program ++ ": 1: cd: can't cd to " ++ name) 2
  | .error _ => s.complain (s.program ++ ": 1: cd: can't cd to " ++ name) 2

/-! ## The end -/

def exit (s : State) : List String → State
  | [] => s.stop (.exits s.status)
  | text :: _ =>
    match text.toNat? with
    | some n => s.stop (.exits (n % 256))
    | none =>
      (s.complain (s.program ++ ": 1: exit: Illegal number: " ++ text) 2).stop
        (.exits State.mistakeStatus)

def sleep (s : State) (args : List String) : State :=
  match args.mapM microseconds? with
  | some times => { s with now := times.foldl (· + ·) s.now, status := 0 }
  | none => if args.contains "infinity" then s.stop .waits else s.ends 1

/-! ## All of them -/

def tool? (s : State) (name : String) (args : List String) : Option State :=
  match name with
  | ":" | "true" | "set" | "umask" | "ulimit" => some (s.ends 0)
  | "false" => some (s.ends 1)
  | "echo" =>
    match args with
    | "-n" :: args => some ((s.say (echoed args false)).ends 0)
    | args => some ((s.say (echoed args true)).ends 0)
  | "printf" =>
    match args with
    | "--" :: pattern :: args | pattern :: args => some ((s.say (printed pattern args)).ends 0)
    | [] => some (s.ends 2)
  | "exit" => some (exit s args)
  | "break" => some (s.stop .breaks)
  | "continue" => some (s.stop .continues)
  | "return" => some (exit s args)
  | "test" => some (s.answers (holds s args))
  | "[" => some (s.answers (holds s args.dropLast))
  | "read" => some (readLine s args)
  | "export" | "readonly" | "local" => some (setAll s args)
  | "unset" => some { s with values := args.foldl (fun t n => t.erase n) s.values, status := 0 }
  | "shift" => some { s with args := s.args.drop (((args.head?.bind String.toNat?)).getD 1), status := 0 }
  | "wait" => some { s with now := max s.now s.later, status := 0 }
  | "cd" => some (goTo s ((args.head?).getD (s.value "HOME")))
  | "pwd" => some ((s.say (s.files.workingPath ++ [10])).ends 0)
  | "ls" => some (listing s args)
  | "cat" =>
    let (s, bs) := gather (s.ends 0) "cat" args
    some (s.say bs)
  | "head" => some (head (s.ends 0) args)
  | "tail" => some (tail (s.ends 0) args)
  | "wc" => some (count (s.ends 0) args)
  | "tr" => some (exchange s args)
  | "seq" => some (numbers s args)
  | "yes" => some ((s.say (List.replicate 65536 [121, 10]).flatten).stop .waits)
  | "sleep" => some (sleep s args)
  | _ => none

end Liaison.Shell
