import Liaison.Rehearsal.Shell.Pattern

/-!
# Sums

Whole numbers are computed from an expression with the usual signs. A name stands for the value of a
variable.
-/

namespace Liaison.Shell

structure Sign where
  text : List Char
  apply : Int → Int → Int

namespace Sign

def comparison (text : String) (holds : Int → Int → Bool) : Sign :=
  ⟨text.toList, fun a b => if holds a b then 1 else 0⟩

def levels : List (List Sign) :=
  [[comparison "||" fun a b => a != 0 || b != 0],
    [comparison "&&" fun a b => a != 0 && b != 0],
    [comparison "==" (· == ·), comparison "!=" (· != ·)],
    [comparison "<=" fun a b => decide (a ≤ b), comparison ">=" fun a b => decide (b ≤ a),
      comparison "<" fun a b => decide (a < b), comparison ">" fun a b => decide (b < a)],
    [⟨['+'], (· + ·)⟩, ⟨['-'], (· - ·)⟩],
    [⟨['*'], (· * ·)⟩, ⟨['/'], Int.tdiv⟩, ⟨['%'], Int.tmod⟩]]

end Sign

def dropBlanks (cs : List Char) : List Char :=
  cs.dropWhile Char.isWhitespace

mutual

def readSum (values : String → Int) : (fuel : Nat) → List (List Sign) → List Char → Int × List Char
  | 0, _, cs => (0, cs)
  | fuel + 1, signs :: more, cs =>
    let (n, rest) := readSum values fuel more cs
    readTerms values fuel signs more n rest
  | fuel + 1, [], cs =>
    match dropBlanks cs with
    | '(' :: rest =>
      let (n, rest) := readSum values fuel Sign.levels rest
      (n, (dropBlanks rest).drop 1)
    | '-' :: rest =>
      let (n, rest) := readSum values fuel [] rest
      (-n, rest)
    | '+' :: rest => readSum values fuel [] rest
    | '!' :: rest =>
      let (n, rest) := readSum values fuel [] rest
      (if n = 0 then 1 else 0, rest)
    | cs =>
      let word := String.ofList (cs.takeWhile fun c => c.isAlphanum || c = '_')
      ((integer? word).getD (values word), cs.drop word.length)

def readTerms (values : String → Int) : (fuel : Nat) → List Sign → List (List Sign) → Int →
    List Char → Int × List Char
  | 0, _, _, n, cs => (n, cs)
  | fuel + 1, signs, more, n, cs =>
    match signs.find? fun s => s.text.isPrefixOf (dropBlanks cs) with
    | none => (n, cs)
    | some s =>
      let (m, rest) := readSum values fuel more ((dropBlanks cs).drop s.text.length)
      readTerms values fuel signs more (s.apply n m) rest

end

def sumOf (values : String → Int) (text : String) : Int :=
  (readSum values (16 * text.length + 16) Sign.levels text.toList).1

end Liaison.Shell
