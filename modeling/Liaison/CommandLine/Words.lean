/-!
# The words of a command line

A word that starts with a dash is an option, unless it is a lone dash or follows the word of two
dashes. The value of an option follows it, as the next word or after an equals sign. A grammar says
which options, flags and other words there may be.
-/

namespace Liaison

inductive WordKind where
  | text
  | path
  | narrow
  | wide
deriving DecidableEq

namespace WordKind

def digits? (cs : List Char) : Option Nat :=
  if !cs.isEmpty && cs.all Char.isDigit then
    some (cs.foldl (fun n c => 10 * n + (c.toNat - '0'.toNat)) 0)
  else none

/-- The number below a bound that a word denotes. A plus sign may come first, and before a zero also
a minus sign if the number `isSigned`. -/
def number? (bound : Nat) (isSigned : Bool) (word : String) : Option Nat :=
  let checked (n : Option Nat) (bound : Nat) := n.filter (· < bound)
  match word.toList with
  | '+' :: cs => checked (digits? cs) bound
  | '-' :: cs => if isSigned then checked (digits? cs) 1 else none
  | cs => checked (digits? cs) bound

def narrow? : String → Option Nat :=
  number? (Nat.pow 2 32) true

def wide? : String → Option Nat :=
  number? (Nat.pow 2 64) false

def admits : WordKind → String → Bool
  | text, _ => true
  | path, word => !word.isEmpty
  | narrow, word => (narrow? word).isSome
  | wide, word => (wide? word).isSome

end WordKind

/-- Which words there may be: options with values, flags without, and other words in order. -/
structure WordGrammar where
  options : List (String × WordKind)
  flags : List String
  others : List WordKind
  hasVersion : Bool

structure GivenWords where
  options : List (String × String)
  flags : List String
  others : List String

/-- Why there is nothing to do: something else was asked for, or the words make no sense. -/
inductive WordStop where
  | help
  | version
  | misuse
deriving DecidableEq

namespace GivenWords

def none : GivenWords :=
  ⟨[], [], []⟩

def addOption (g : WordGrammar) (w : GivenWords) (name value : String) :
    Except WordStop GivenWords :=
  match g.options.lookup name with
  | some kind =>
    if kind.admits value ∧ (w.options.lookup name).isNone then
      .ok { w with options := w.options ++ [(name, value)] }
    else .error .misuse
  | .none => .error .misuse

def addFlag (g : WordGrammar) (w : GivenWords) (name : String) : Except WordStop GivenWords :=
  if name = "help" then .error .help
  else if name = "version" ∧ g.hasVersion then .error .version
  else if name ∈ g.flags ∧ name ∉ w.flags then .ok { w with flags := w.flags ++ [name] }
  else .error .misuse

def addOther (g : WordGrammar) (w : GivenWords) (word : String) : Except WordStop GivenWords :=
  match g.others[w.others.length]? with
  | some kind =>
    if kind.admits word then .ok { w with others := w.others ++ [word] } else .error .misuse
  | .none => .error .misuse

end GivenWords

inductive WordForm where
  | plain
  | escape
  | long (name : String) (value : Option String)
  | short (letter : Char)

def WordForm.of (word : String) : WordForm :=
  match word.toList with
  | '-' :: '-' :: [] => escape
  | '-' :: '-' :: cs =>
    long (String.ofList (cs.takeWhile (· ≠ '=')))
      (match cs.dropWhile (· ≠ '=') with
        | _ :: value => some (String.ofList value)
        | [] => none)
  | '-' :: c :: _ => short c
  | _ => plain

def shortStop (g : WordGrammar) (letter : Char) : WordStop :=
  if letter = 'h' then .help
  else if letter = 'V' ∧ g.hasVersion then .version
  else .misuse

/-- Reads options and flags up to the first plain word, or to the end. Returns the words from there
on. -/
def readOptions (g : WordGrammar) (w : GivenWords) :
    List String → Except WordStop (GivenWords × List String)
  | [] => .ok (w, [])
  | word :: rest =>
    match WordForm.of word with
    | .plain | .escape => .ok (w, word :: rest)
    | .short letter => .error (shortStop g letter)
    | .long name (some value) =>
      match w.addOption g name value with
      | .ok w => readOptions g w rest
      | .error e => .error e
    | .long name none =>
      if (g.options.lookup name).isSome then
        match rest with
        | [] => .error .misuse
        | value :: rest =>
          match WordForm.of value with
          | .plain =>
            match w.addOption g name value with
            | .ok w => readOptions g w rest
            | .error e => .error e
          | _ => .error .misuse
      else
        match w.addFlag g name with
        | .ok w => readOptions g w rest
        | .error e => .error e

theorem length_readOptions {g : WordGrammar} {w v : GivenWords} {words rest : List String}
    (h : readOptions g w words = .ok (v, rest)) : rest.length ≤ words.length := by
  fun_induction readOptions g w words <;> grind

def readWords (g : WordGrammar) (w : GivenWords) (words : List String) :
    Except WordStop GivenWords :=
  match _h : readOptions g w words with
  | .error e => .error e
  | .ok (w, []) => if w.others.length = g.others.length then .ok w else .error .misuse
  | .ok (w, word :: rest) =>
    match WordForm.of word with
    | .escape => do
      let w ← rest.foldlM (GivenWords.addOther g) w
      if w.others.length = g.others.length then return w else throw .misuse
    | _ =>
      match w.addOther g word with
      | .ok w => readWords g w rest
      | .error e => .error e
termination_by words.length
decreasing_by
  have := length_readOptions _h
  simp at this
  omega

end Liaison
