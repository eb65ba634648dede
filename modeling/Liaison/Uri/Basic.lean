import Liaison.Uri.Percent

/-!
# URIs

The parts of a URI in their normal form, and the text that they make up.
-/

namespace Liaison

/-- Where a URI says a resource is: a user, a host and a port. All texts are in their encoded form. -/
structure Authority where
  user : List Char
  password : Option (List Char)
  host : List Char
  port : Option Nat
deriving DecidableEq

/-- The path of a URI: names that lead down from the root, the last of which is empty if the path
ends with a slash, or a text with no structure. -/
inductive UriPath where
  | names (names : List (List Char))
  | raw (text : List Char)
deriving DecidableEq

structure Uri where
  scheme : List Char
  authority : Option Authority
  path : UriPath
  query : Option (List Char)
  fragment : Option (List Char)
deriving DecidableEq

/-! ## Text -/

def Authority.text (a : Authority) : List Char :=
  let user :=
    match a.password with
    | some password => a.user ++ ':' :: password
    | none => a.user
  (if user.isEmpty then [] else user ++ ['@']) ++ a.host ++
    match a.port with
    | some port => ':' :: Nat.toDigits 10 port
    | none => []

def UriPath.text : UriPath → List Char
  | names ns => ns.flatMap ('/' :: ·)
  | raw text => text

def marked (mark : Char) : Option (List Char) → List Char
  | some text => mark :: text
  | none => []

def Uri.text (u : Uri) : List Char :=
  u.scheme ++ ':' ::
    (match u.authority with
      | some a => '/' :: '/' :: a.text
      | none => []) ++
    u.path.text ++ marked '?' u.query ++ marked '#' u.fragment

end Liaison
