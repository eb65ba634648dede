import Liaison.Text.Utf8

/-!
# References to the environment

A text may refer to variables of the environment by their names between a dollar sign with an opening
brace and a closing brace. A reference that is not closed stands for itself.
-/

namespace Liaison

abbrev Environment := String → Option String

/-- The environment of variables whose values are bytes. A value that is no text counts as not set. -/
def Environment.ofBytes (values : String → Option Bytes) : Environment := fun name =>
  (values name).bind Utf8.toString?

/-- What a reference to a name stands for: nothing if the name is empty or not set. -/
def valueOf (env : Environment) (name : List Char) : List Char :=
  if name.isEmpty then [] else ((env (String.ofList name)).getD "").toList

def expand (env : Environment) (cs : List Char) : List Char :=
  match cs with
  | [] => []
  | '$' :: '\x7b' :: rest =>
    match _h : rest.dropWhile (· ≠ '\x7d') with
    | [] => '$' :: '\x7b' :: rest
    | _ :: after =>
      valueOf env (rest.takeWhile (· ≠ '\x7d')) ++ expand env after
  | c :: rest => c :: expand env rest
termination_by cs.length
decreasing_by
  · have := (List.dropWhile_suffix (l := rest) (· ≠ '\x7d')).length_le
    simp_all only [List.length_cons]
    omega
  · simp

def referenced (text : String) : List String :=
  ((text.splitOn "$\x7b").drop 1).map fun piece => (piece.splitOn "\x7d").headD ""

def expandText (env : Environment) (s : String) : String :=
  String.ofList (expand env s.toList)

end Liaison
