import Liaison.Rehearsal.Shell.Reader
import Liaison.Rehearsal.Shell.Tool

/-!
# Running shell commands

A command changes the state of a shell. It gets a share that bounds how deep it goes; one that goes
deeper is taken to go on forever.
-/

namespace Liaison.Shell

/-! ## Words -/

/-- The fields of a word as far as they were found: the whole ones, and one that may go on. -/
structure Fields where
  done : List String
  current : Option String

namespace Fields

def empty : Fields :=
  ⟨[], none⟩

def add (f : Fields) (text : String) : Fields :=
  { f with current := some (f.current.getD "" ++ text) }

def close (f : Fields) : Fields :=
  ⟨f.done ++ f.current.toList, none⟩

def split (f : Fields) (text : String) : Fields :=
  text.toList.foldl (fun f c => if c.isWhitespace then f.close else f.add (String.ofList [c])) f

/-- Each text is a field; the first goes on with a field and the last may go on. -/
def addEach (f : Fields) : List String → Fields
  | [] => f
  | [text] => f.add text
  | text :: texts => addEach (f.add text).close texts

def toList (f : Fields) : List String :=
  f.close.done

end Fields

def trimLines (bs : Bytes) : String :=
  Utf8.toStringLossy (bs.reverse.dropWhile (· = 10)).reverse

/-! ## Streams -/

def State.sink (s : State) : Nat → Sink
  | 1 => s.output
  | 2 => s.errors
  | _ => .nowhere

def State.lead (s : State) (number : Nat) (sink : Sink) : State :=
  match number with
  | 1 => { s with output := sink }
  | 2 => { s with errors := sink }
  | _ => s

def State.sinkOf (s : State) (name : String) : Sink :=
  match name with
  | "/dev/null" => .nowhere
  | "/dev/stdout" => s.output
  | "/dev/stderr" => s.errors
  | _ => ((placeOf? s.files name).map Sink.file).getD .nowhere

def State.inputOf (s : State) (name : String) : Except String Bytes :=
  if name = "/dev/null" then .ok []
  else
    match s.files.readBytes (Path.ofString name) with
    | .ok bs => .ok bs
    | .error _ => .error (s.program ++ ": 1: cannot open " ++ name ++ ": No such file")

/-- Does a command do nothing but keep its streams where they go? -/
def isLasting : Command → Bool
  | .simple [] [word] =>
    String.join (word.map fun (_, piece) => match piece with
      | .text s => s
      | _ => " ") = "exec"
  | .redirect _ _ _ c => isLasting c
  | _ => false

/-! ## Signals -/

def signalOf : List String → Nat × List String
  | "-s" :: name :: args => ((signalNumber? name).getD 15, args)
  | first :: args =>
    if first.startsWith "-" then ((signalNumber? (first.drop 1).toString).getD 15, args)
    else (15, first :: args)
  | [] => (15, [])

/-! ## Commands -/

mutual

def textOfPiece : (fuel : Nat) → Piece → State → String × State
  | 0, _, s => ("", s.stop .waits)
  | fuel + 1, piece, s =>
    match piece with
    | .text t => (t, s)
    | .value name otherwise =>
      let v := s.value name
      if v.isEmpty && !otherwise.isEmpty then textOf fuel otherwise s else (v, s)
    | .sum word =>
      let (text, s) := textOf fuel word s
      (toString (sumOf (fun name => (integer? (s.value name)).getD 0) text), s)
    | .printed c =>
      let sub := run fuel c { s.inner with output := .kept, kept := [] }
      (trimLines sub.kept, { s.leave sub with kept := s.kept })

def textOf : (fuel : Nat) → Word → State → String × State
  | 0, _, s => ("", s.stop .waits)
  | fuel + 1, word, s =>
    word.foldl (fun (text, s) (_, piece) =>
      let (more, s) := textOfPiece fuel piece s
      (text ++ more, s)) ("", s)

def fieldsOf : (fuel : Nat) → List Word → State → List String × State
  | 0, _, s => ([], s.stop .waits)
  | fuel + 1, words, s =>
    words.foldl (fun (fields, s) word =>
      let (f, s) : Fields × State := word.foldl (fun (f, s) (isQuoted, piece) =>
        match piece, isQuoted with
        | .text t, _ => (f.add t, s)
        | .value "@" _, true => (f.addEach s.args, s)
        | piece, true =>
          let (text, s) := textOfPiece fuel piece s
          (f.add text, s)
        | piece, false =>
          let (text, s) := textOfPiece fuel piece s
          (f.split text, s)) (Fields.empty, s)
      (fields ++ f.toList, s)) ([], s)

def runText : (fuel : Nat) → String → State → State
  | 0, _, s => s.stop .waits
  | fuel + 1, text, s =>
    match read? text with
    | some c => run fuel c s
    | none => (s.complain (s.program ++ ": 1: Syntax error") 2).stop (.exits State.mistakeStatus)

def runLast : (fuel : Nat) → State → State
  | 0, s => s
  | fuel + 1, s =>
    match s.traps.get? "EXIT", s.halt with
    | _, some .waits | _, some (.killed _) | none, _ => s
    | some text, halt =>
      let status := match halt with
        | some (.exits n) => n
        | _ => s.status
      let after := runText fuel text { s with halt := none, traps := s.traps.erase "EXIT", status := status }
      after.stop (.exits status)

def runShell : (fuel : Nat) → List String → State → State
  | 0, _, s => s.stop .waits
  | fuel + 1, args, s =>
    match args with
    | "-c" :: text :: args =>
      s.leave (runLast fuel (runText fuel text
        { s.inner with program := args.headD s.program, args := args.tail, status := 0 }))
    | name :: args =>
      match s.files.readText (Path.ofString name) with
      | .ok text =>
        s.leave (runLast fuel (runText fuel text
          { s.inner with program := name, args := args, status := 0 }))
      | .error _ => s.complain (s.program ++ ": 0: cannot open " ++ name ++ ": No such file") 2
    | [] =>
      let (bs, s) := s.takeInput
      if s.halt.isSome then s
      else s.leave (runLast fuel (runText fuel (Utf8.toStringLossy bs) { s.inner with status := 0 }))

def signal : (fuel : Nat) → Nat → State → State
  | 0, _, s => s.stop .waits
  | fuel + 1, number, s =>
    let s := s.ends 0
    match s.traps.get? (signalName (toString number)) with
    | some text =>
      if number = 9 then s.stop (.killed 9)
      else if text.isEmpty then s
      else (runText fuel text s).ends 0
    | none =>
      if number = 0 || number ∈ mildSignals then s
      else if number ∈ stoppingSignals then s.stop .waits
      else s.stop (.killed number)

def perform : (fuel : Nat) → String → List String → State → State
  | 0, _, _, s => s.stop .waits
  | fuel + 1, name, args, s =>
    let plain := ((name.splitOn "/").getLast?).getD name
    match (if name = "/bin/" ++ plain || name = "/usr/bin/" ++ plain then plain else name), args with
    | "exec", [] => s.ends 0
    | "exec", name :: args =>
      let after := perform fuel name args s
      after.stop (.exits after.status)
    | "eval", args => runText fuel (" ".intercalate args) s
    | "command", name :: args | "builtin", name :: args | "nohup", name :: args => perform fuel name args s
    | "env", name :: args =>
      if name.toList.contains '=' then
        { perform fuel "env" args (setAll s [name]) with values := s.values }
      else perform fuel name args s
    | "sh", args | "dash", args | "bash", args => runShell fuel args { s with program := name }
    | "trap", action :: names =>
      { s.ends 0 with
        traps := names.foldl (fun t n =>
          if action = "-" then t.erase (signalName n) else t.insert (signalName n) action) s.traps }
    | "kill", args =>
      let (number, targets) := signalOf args
      if targets.contains State.ownNumber then signal fuel number s else s.ends 0
    | known, args =>
      match tool? s known args with
      | some s => s
      | none => s.complain (s.program ++ ": 1: " ++ name ++ ": not found") State.notFoundStatus

def runEach : (fuel : Nat) → String → List String → Command → State → State
  | 0, _, _, _, s => s.stop .waits
  | _ + 1, _, [], _, s => s
  | fuel + 1, name, v :: values, body, s =>
    let s := run fuel body { s with values := s.values.insert name v }
    match s.halt with
    | none | some .continues => runEach fuel name values body { s with halt := none }
    | some .breaks => { s with halt := none }
    | some _ => s

def run : (fuel : Nat) → Command → State → State
  | 0, _, s => s.stop .waits
  | fuel + 1, c, s =>
    if s.halt.isSome then s
    else
      match c with
      | .nothing => s
      | .simple sets words =>
        let (fields, s) := fieldsOf fuel words (if words.isEmpty then s.ends 0 else s)
        let set (s : State) : State := sets.foldl (fun s (name, word) =>
          let (v, s) := textOf fuel word s
          { s with values := s.values.insert name v }) s
        match fields with
        | [] => set s
        | name :: args =>
          if s.halt.isSome then s
          else if sets.isEmpty then perform fuel name args s
          else { perform fuel name args (set s) with values := s.values }
      | .redirect number target word c =>
        match target with
        | .stream other =>
          let after := run fuel c (s.lead number (s.sink other))
          if isLasting c then after else { after with output := s.output, errors := s.errors }
        | .nowhere =>
          let after := run fuel c (s.lead number .nowhere)
          if isLasting c then after else { after with output := s.output, errors := s.errors }
        | .file =>
          let (name, s) := textOf fuel word s
          if number = 0 then
            match s.inputOf name with
            | .error complaint => s.complain complaint 2
            | .ok bs =>
              let after := run fuel c { s with input := bs, isWhole := true }
              if isLasting c then after else { after with input := s.input, isWhole := s.isWhole }
          else
            let after := run fuel c ((s.lead number (s.sinkOf name)).pour (s.sinkOf name) [])
            if isLasting c then after else { after with output := s.output, errors := s.errors }
      | .negate c =>
        let s := run fuel c s
        s.answers (s.status ≠ 0)
      | .sequence a b => run fuel b (run fuel a s)
      | .both a b =>
        let s := run fuel a s
        if s.status = 0 then run fuel b s else s
      | .either a b =>
        let s := run fuel a s
        if s.status = 0 then s else run fuel b s
      | .pipe a b =>
        let source := run fuel a { s.inner with output := .kept, kept := [] }
        let between := { s.leave source with kept := s.kept, halt := none }
        let sink := run fuel b { between.inner with
          input := source.kept, isWhole := !(source.halt matches some .waits) }
        { s.leave sink with input := between.input }
      | .background c =>
        let sub := run fuel c { s.inner with input := [], isWhole := true }
        { s with said := sub.said, kept := sub.kept, files := sub.files, later := max s.later sub.now, status := 0 }
      | .subshell c => s.leave (runLast fuel (run fuel c s.inner))
      | .branch condition positive negative =>
        let s := run fuel condition s
        if s.halt.isSome then s
        else if s.status = 0 then run fuel positive s
        else run fuel negative (s.ends 0)
      | .loop onFailure condition body =>
        let s := run fuel condition s
        if s.halt.isSome then s
        else if (s.status = 0) = onFailure then s.ends 0
        else
          let s := run fuel body s
          match s.halt with
          | none | some .continues => run fuel c { s with halt := none }
          | some .breaks => { s with halt := none, status := 0 }
          | some _ => s
      | .each name words body =>
        let (values, s) := fieldsOf fuel words s
        runEach fuel name values body s

end

def depth : Nat := 20000

def programs : List String :=
  ["sh", "dash", "bash", "true", "false", "echo", "printf", "cat", "head", "tail", "wc", "tr", "seq",
    "sleep", "pwd", "ls", "env", "test", "kill"]

def programPath? (command : String) : Option String :=
  let plain := ((command.splitOn "/").getLast?).getD command
  if !programs.contains plain then none
  else if command = plain then some ("/usr/bin/" ++ plain)
  else if command = "/bin/" ++ plain || command = "/usr/bin/" ++ plain then some command
  else none

def program (path : String) (args : List String) (values : List (String × String))
    (files : FileTree) : Program := fun input isWhole =>
  let s : State :=
    { program := path, values := .ofList values, args := [], status := 0, input := input
      isWhole := isWhole, now := 0, later := 0, said := [], kept := [], output := .channel .output
      errors := .channel .errors, files := files, traps := [], halt := none }
  let line (args : List String) : Bytes := Utf8.ofString (" ".intercalate args)
  let after : State :=
    match ((path.splitOn "/").getLast?).getD path, args with
    | "echo", "-n" :: args => s.say (line args)
    | "echo", args => s.say (line args ++ [10])
    | "sh", "-c" :: text :: more =>
      runLast depth (runText depth text { s with program := more.headD path, args := more.tail })
    | _, _ => perform depth path args s
  after.performance

end Liaison.Shell
