import Liaison.Position

/-!
# Locations

The answer to a question for definitions, implementations or references is a location, a list of
locations, a list of links, or nothing. All become one list in strictly ascending order.
-/

namespace Liaison

structure Location where
  uri : String
  range : Range
deriving DecidableEq

namespace Location

def compare (a b : Location) : Ordering :=
  (Ord.compare a.uri b.uri).then (a.range.compare b.range)

def atMost (a b : Location) : Bool :=
  (a.compare b).isLE

def toJson (l : Location) : Json :=
  Json.ofMembers [("uri", .str l.uri), ("range", l.range.toJson)]

end Location

/-! ## Decoding -/

namespace Wire

def location : Decoder Location :=
  Record.decode "WireLocation" <|
    (fun uri range => ⟨uri, range.toRange⟩) <$>
      .field "uri" .string <*> .field "range" Range.decode

/-- Decodes a link to a location. The range of the name itself goes before that of the whole. -/
def locationLink : Decoder Location :=
  Record.decode "WireLocationLink" <|
    (fun uri whole name => ⟨uri, (name.getD whole).toRange⟩) <$>
      .field "targetUri" .string <*> .field "targetRange" Range.decode <*>
        .fieldOpt "targetSelectionRange" Range.decode

def locations : Decoder (List Location) :=
  .as (·.getD []) <| .optional <|
    .oneOf "GotoResponse" [.as (fun l => [l]) location, .list location, .list locationLink]

end Wire

/-! ## Order -/

namespace Location

def dedup : List Location → List Location
  | [] => []
  | [l] => [l]
  | l :: m :: rest => if l = m then dedup (m :: rest) else l :: dedup (m :: rest)

def normalize (ls : List Location) : List Location :=
  dedup (ls.mergeSort atMost)

def ofAnswer (v : Json) : Except DecodeError (List Location) :=
  (Wire.locations v).map normalize

end Location

end Liaison
