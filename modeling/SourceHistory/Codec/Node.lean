import SourceHistory.Codec.Basic
import SourceHistory.Json.Printer
import SourceHistory.Node.Check

namespace SourceHistory

namespace Node

def attributeFields (id : String) : Attributes → List (String × Json)
  | .unit => [("path", .text id)]
  | .type modifiers supertypes =>
    ("id", .text id) :: Codec.optionalField "modifiers" (modifiers.toList.map Json.text) ++
      Codec.optionalField "supertypes" (supertypes.toList.map Json.text)
  | .function modifiers _ =>
    ("id", .text id) :: Codec.optionalField "modifiers" (modifiers.toList.map Json.text)
  | .var modifiers initializer =>
    ("id", .text id) :: Codec.optionalField "modifiers" (modifiers.toList.map Json.text) ++
      Codec.optionalField "initializer" (initializer.map Json.text)

def childField : Kind → String
  | .unit => "entities"
  | .type => "members"
  | .function => "parameters"
  | .var => "children"

def bodyField : Attributes → List (String × Json)
  | .function _ body => Codec.optionalField "body" (body.map Json.text)
  | _ => []

mutual

/-- Entities and nodes are tagged by their kind, parameters are not; empty sets and lists are left
out. -/
def toJson (tagged : Bool) : Node → Json
  | ⟨id, attributes, children⟩ =>
    .record ((if tagged then [("kind", .text attributes.kind.name)] else []) ++
      attributeFields id attributes ++
      Codec.optionalField (childField attributes.kind)
        (toJsonList (attributes.kind ≠ .function) children) ++
      bodyField attributes)

def toJsonList (tagged : Bool) : List Node → List Json
  | [] => []
  | n :: ns => toJson tagged n :: toJsonList tagged ns

end

end Node

def SourceUnit.toJson (u : SourceUnit) : Json := u.toNode.toJson false

namespace Codec

/-- A kind by name, or an object with that name and nothing else. -/
def readKind : Json → Decoded Kind
  | .string (some s) => named s
  | .object [(some s, .null)] => named s
  | _ => .error .malformed
where
  named (s : String) : Decoded Kind :=
    required ([Kind.unit, .type, .function, .var].find? fun kind => kind.name = s)

/-- The fields of any node that were decoded so far. -/
structure NodeFields where
  id? : Option String := none
  modifiers? : Option NameSet := none
  supertypes? : Option NameSet := none
  lines? : Option (List String) := none
  children? : Option (List Node) := none

def readVar (j : Json) : Decoded Node := do
  let fields ← readRecord ["id", "modifiers", "initializer"] ({} : NodeFields) step j
  let id ← required fields.id?
  construct (Node.var id (fields.modifiers?.getD ∅) (fields.lines?.getD []))
where
  step (fields : NodeFields) (name : String) (value : Json) : Option (Decoded NodeFields) :=
    match name with
    | "id" => some do return { fields with id? := ← once fields.id? (readText value) }
    | "modifiers" =>
      some do return { fields with modifiers? := ← once fields.modifiers? (readNames value) }
    | "initializer" =>
      some do return { fields with lines? := ← once fields.lines? (readTexts value) }
    | _ => none

def readFunction (j : Json) : Decoded Node := do
  let fields ← readRecord ["id", "modifiers", "parameters", "body"] ({} : NodeFields) step j
  let id ← required fields.id?
  construct (Node.function id (fields.modifiers?.getD ∅) (fields.children?.getD [])
    (fields.lines?.getD []))
where
  step (fields : NodeFields) (name : String) (value : Json) : Option (Decoded NodeFields) :=
    match name with
    | "id" => some do return { fields with id? := ← once fields.id? (readText value) }
    | "modifiers" =>
      some do return { fields with modifiers? := ← once fields.modifiers? (readNames value) }
    | "parameters" =>
      some do return { fields with children? := ← once fields.children? (readItems readVar value) }
    | "body" => some do return { fields with lines? := ← once fields.lines? (readTexts value) }
    | _ => none

def readType (readChild : Json → Decoded Node) (j : Json) : Decoded Node := do
  let fields ← readRecord ["id", "modifiers", "supertypes", "members"] ({} : NodeFields) step j
  let id ← required fields.id?
  construct (Node.type id (fields.modifiers?.getD ∅) (fields.supertypes?.getD ∅)
    (fields.children?.getD []))
where
  step (fields : NodeFields) (name : String) (value : Json) : Option (Decoded NodeFields) :=
    match name with
    | "id" => some do return { fields with id? := ← once fields.id? (readText value) }
    | "modifiers" =>
      some do return { fields with modifiers? := ← once fields.modifiers? (readNames value) }
    | "supertypes" =>
      some do return { fields with supertypes? := ← once fields.supertypes? (readNames value) }
    | "members" =>
      some do
        return { fields with children? := ← once fields.children? (readItems readChild value) }
    | _ => none

def readUnit (readChild : Json → Decoded Node) (j : Json) : Decoded SourceUnit := do
  let fields ← readRecord ["path", "entities"] ({} : NodeFields) step j
  let path ← required fields.id?
  construct (SourceUnit.make path (fields.children?.getD []))
where
  step (fields : NodeFields) (name : String) (value : Json) : Option (Decoded NodeFields) :=
    match name with
    | "path" => some do return { fields with id? := ← once fields.id? (readText value) }
    | "entities" =>
      some do
        return { fields with children? := ← once fields.children? (readItems readChild value) }
    | _ => none

/-- A tagged entity, at most `depth` types deep. No text that is read in full nests deeper than
`maxDepth`, so `maxDepth` is deep enough for all of them. -/
def readEntityWithin : (depth : Nat) → Place → Json → Decoded Node
  | 0, _, _ => .error .malformed
  | depth + 1, place, j => do
    place.check j
    let (tag, record) ← splitTag place "kind" ["type", "function", "variable"] j
    match tag with
    | 0 => readType (readEntityWithin depth .inner) record
    | 1 => readFunction record
    | _ => readVar record

def readEntity (place : Place) (j : Json) : Decoded Node := readEntityWithin maxDepth place j

def readNode (place : Place) (j : Json) : Decoded Node := do
  place.check j
  let (tag, record) ← splitTag place "kind" ["unit", "type", "function", "variable"] j
  match tag with
  | 0 => return (← readUnit (readEntity .inner) record).toNode
  | 1 => readType (readEntity .inner) record
  | 2 => readFunction record
  | _ => readVar record

/-- A unit that is a whole text: its entities stand inside the unit and its list. -/
def readWholeUnit (j : Json) : Decoded SourceUnit := readUnit (readEntity (.outer 2)) j

def readWholeType (j : Json) : Decoded Node := readType (readEntity (.outer 2)) j

end Codec

end SourceHistory
