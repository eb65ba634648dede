import Liaison.Text.Shown

/-!
# Quoted texts

How a message shows a text it was given: between double quotes, on one line, with everything
that has no glyph spelled out.
-/

namespace Liaison

namespace Quoted

def hex (n : Nat) : List Char :=
  Nat.toDigits 16 n

def encodeChar (c : Char) : List Char :=
  if c = '\x00' then ['\\', '0']
  else if c = '\t' then ['\\', 't']
  else if c = '\n' then ['\\', 'n']
  else if c = '\r' then ['\\', 'r']
  else if c = '"' then ['\\', '"']
  else if c = '\\' then ['\\', '\\']
  else if isShown c then [c]
  else ['\\', 'u', Char.ofNat 0x7B] ++ hex c.toNat ++ [Char.ofNat 0x7D]

def encode (cs : List Char) : List Char :=
  '"' :: cs.flatMap encodeChar ++ ['"']

end Quoted

def quoted (s : String) : String :=
  String.ofList (Quoted.encode s.toList)

end Liaison
