import Liaison.Position

/-!
# Symbols

The symbols of a document come as trees, or as a flat list in which each has its own location.
-/

namespace Liaison

/-! ## Kinds -/

inductive SymbolKind where
  | file
  | module
  | nameSpace
  | package
  | classType
  | method
  | property
  | field
  | constructor
  | enum
  | interface
  | function
  | variable
  | constant
  | string
  | number
  | boolean
  | array
  | object
  | key
  | null
  | enumMember
  | struct
  | event
  | operator
  | typeParameter
  | unknown
deriving DecidableEq

namespace SymbolKind

/-- The kinds with their names, in the order in which the protocol numbers them from one. -/
def table : List (SymbolKind × String) :=
  [(.file, "file"), (.module, "module"), (.nameSpace, "namespace"), (.package, "package"),
    (.classType, "class"), (.method, "method"), (.property, "property"), (.field, "field"),
    (.constructor, "constructor"), (.enum, "enum"), (.interface, "interface"),
    (.function, "function"), (.variable, "variable"), (.constant, "constant"),
    (.string, "string"), (.number, "number"), (.boolean, "boolean"), (.array, "array"),
    (.object, "object"), (.key, "key"), (.null, "null"), (.enumMember, "enum_member"),
    (.struct, "struct"), (.event, "event"), (.operator, "operator"),
    (.typeParameter, "type_parameter")]

def ofNumber (n : Nat) : SymbolKind :=
  match n with
  | 0 => .unknown
  | n + 1 => ((table[n]?).map (·.1)).getD .unknown

def name (k : SymbolKind) : String :=
  (table.lookup k).getD "unknown"

end SymbolKind

/-! ## Symbols -/

structure Symbol where
  name : String
  kind : SymbolKind
  detail : Option String
  uri : Option String
  range : Range
  selectionRange : Range
  container : Option String
  children : List Symbol

namespace Symbol

def textMember (name : String) : Option String → List (String × Json)
  | some s => [(name, .str s)]
  | none => []

mutual

/-- The symbol as a JSON object. What is absent is left out. -/
def toJson : Symbol → Json
  | ⟨name, kind, detail, uri, range, selectionRange, container, children⟩ =>
    Json.ofMembers <|
      [("name", .str name), ("kind", .str kind.name), ("range", range.toJson),
        ("selection_range", selectionRange.toJson)] ++
      textMember "detail" detail ++ textMember "uri" uri ++ textMember "container" container ++
      (if children.isEmpty then [] else [("children", .arr (toJsons children))])

def toJsons : List Symbol → List Json
  | [] => []
  | s :: rest => toJson s :: toJsons rest

end

end Symbol

/-! ## Decoding -/

namespace Wire

def documentSymbol : (depth : Nat) → Decoder Symbol
  | 0 => fun v => .error (.wrongType v "struct WireDocumentSymbol")
  | depth + 1 =>
    Record.decode "WireDocumentSymbol" <|
      (fun name detail kind range selection children =>
        ⟨name, .ofNumber kind, detail, none, range.toRange, selection.toRange, none, children⟩) <$>
          .field "name" .string <*> .fieldOpt "detail" .string <*> .field "kind" .u64 <*>
          .field "range" Range.decode <*> .field "selectionRange" Range.decode <*>
          .fieldOr "children" (.list (documentSymbol depth)) []

def symbolLocation : Decoder (String × Option Range) :=
  Record.decode "WireSymbolLocation" <|
    Prod.mk <$> .field "uri" .string <*> .fieldOpt "range" Range.decode

/-- Decodes a symbol with a location of its own. Without a range it stands at the start. -/
def symbolInformation : Decoder Symbol :=
  Record.decode "WireSymbolInformation" <|
    (fun name kind location container =>
      let range := (location.2.map Range.toRange).getD ⟨⟨1, 1⟩, ⟨1, 1⟩⟩
      ⟨name, .ofNumber kind, none, some location.1, range, range, container, []⟩) <$>
        .field "name" .string <*> .field "kind" .u64 <*> .field "location" symbolLocation <*>
        .fieldOpt "containerName" .string

end Wire

def Symbol.ofAnswer (v : Json) : Except DecodeError (List Symbol) :=
  let nested := Decoder.list (Wire.documentSymbol (v.depth + 1))
  Decoder.as (·.getD [])
    (.optional (.oneOf "SymbolResponse" [nested, .list Wire.symbolInformation])) v

end Liaison
