import Liaison.Position
import Liaison.Text.Blank

/-!
# Hover texts

The contents of a hover are a text with a markup kind, one marked string, or a list of them. All
become one text; blank contents count as no hover.
-/

namespace Liaison

structure Hover where
  contents : String
  range : Option Range
deriving DecidableEq

def Hover.toJson (h : Hover) : Json :=
  Json.ofMembers
    [("contents", .str h.contents), ("range", .ofOption (h.range.map Range.toJson))]

/-! ## Marked strings -/

inductive MarkedString where
  | plain (text : String)
  | code (language value : String)
deriving DecidableEq

namespace MarkedString

def render : MarkedString → String
  | plain text => text
  | code language value => s!"```{language}\n{value}\n```"

def decode : Decoder MarkedString :=
  .oneOf "MarkedString"
    [.as plain .string,
      Record.object "MarkedString" <| code <$> .field "language" .string <*> .field "value" .string]

end MarkedString

/-! ## Contents -/

inductive HoverContents where
  | markup (kind value : String)
  | single (part : MarkedString)
  | many (parts : List MarkedString)
deriving DecidableEq

namespace HoverContents

def isBlank (s : String) : Bool :=
  isBlankText s.toList

/-- The text of the contents. Of a list, the parts that are not blank stand apart by empty lines. -/
def text : HoverContents → String
  | markup _ value => value
  | single part => part.render
  | many parts => "\n\n".intercalate ((parts.map MarkedString.render).filter (!isBlank ·))

def decode : Decoder HoverContents :=
  .oneOf "HoverContents"
    [Record.object "HoverContents" <| markup <$> .field "kind" .string <*> .field "value" .string,
      .as single MarkedString.decode,
      .as many (.list MarkedString.decode)]

end HoverContents

namespace Wire

def hover : Decoder (Option (HoverContents × Option Range)) :=
  .optional <| Record.decode "WireHover" <|
    Prod.mk <$> .field "contents" HoverContents.decode <*> .fieldOpt "range" Range.decode

end Wire

def Hover.ofContents? (contents : HoverContents) (range : Option Wire.Range) : Option Hover :=
  if HoverContents.isBlank contents.text then none
  else some ⟨contents.text, range.map Wire.Range.toRange⟩

def Hover.ofAnswer (v : Json) : Except DecodeError (Option Hover) :=
  (Wire.hover v).map fun h => h.bind fun h => ofContents? h.1 h.2

end Liaison
