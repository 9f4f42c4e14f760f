import SourceHistory.Codec.Node
import SourceHistory.Edit.Basic

namespace SourceHistory

def SetEdit.toJson : SetEdit String → Json
  | add value => .record [("add", .text value)]
  | remove value => .record [("remove", .text value)]

def ListEdit.toJson : ListEdit String → Json
  | add index value => .record [("add", .record [("index", .nat index), ("value", .text value)])]
  | remove index => .record [("remove", .record [("index", .nat index)])]
  | replace index value =>
    .record [("replace", .record [("index", .nat index), ("value", .text value)])]

namespace Edit

def fields : Edit → List (String × Json)
  | addNode node => [("node", node.toJson true)]
  | removeNode id => [("id", .text id)]
  | editType id modifiers supertypes =>
    ("id", .text id) :: Codec.optionalField "modifier_edits" (modifiers.map SetEdit.toJson) ++
      Codec.optionalField "supertype_edits" (supertypes.map SetEdit.toJson)
  | editFunction id modifiers parameters body =>
    ("id", .text id) :: Codec.optionalField "modifier_edits" (modifiers.map SetEdit.toJson) ++
      Codec.optionalField "parameter_edits" (parameters.map ListEdit.toJson) ++
      Codec.optionalField "body_edits" (body.map ListEdit.toJson)
  | editVar id modifiers initializer =>
    ("id", .text id) :: Codec.optionalField "modifier_edits" (modifiers.map SetEdit.toJson) ++
      Codec.optionalField "initializer_edits" (initializer.map ListEdit.toJson)

def tag : Edit → String
  | addNode _ => "add_node"
  | removeNode _ => "remove_node"
  | editType .. => "edit_type"
  | editFunction .. => "edit_function"
  | editVar .. => "edit_variable"

def toJson (e : Edit) : Json := .record (("type", .text e.tag) :: e.fields)

end Edit

namespace Codec

def readSetEdit : Json → Decoded (SetEdit String)
  | .object [(some "add", value)] => return .add (← readText value)
  | .object [(some "remove", value)] => return .remove (← readText value)
  | _ => .error .malformed

/-- The fields of a list edit that were decoded so far. -/
structure ListEditFields where
  index? : Option Nat := none
  value? : Option String := none

def readIndex (j : Json) : Decoded Nat := do
  let fields ← readRecord ["index"] ({} : ListEditFields) step j
  required fields.index?
where
  step (fields : ListEditFields) (name : String) (value : Json) : Option (Decoded ListEditFields) :=
    match name with
    | "index" => some do return { fields with index? := ← once fields.index? (readNatural value) }
    | _ => none

def readIndexed (j : Json) : Decoded (Nat × String) := do
  let fields ← readRecord ["index", "value"] ({} : ListEditFields) step j
  return (← required fields.index?, ← required fields.value?)
where
  step (fields : ListEditFields) (name : String) (value : Json) : Option (Decoded ListEditFields) :=
    match name with
    | "index" => some do return { fields with index? := ← once fields.index? (readNatural value) }
    | "value" => some do return { fields with value? := ← once fields.value? (readText value) }
    | _ => none

def readListEdit : Json → Decoded (ListEdit String)
  | .object [(some "add", record)] => do
    let (index, value) ← readIndexed record
    return .add index value
  | .object [(some "remove", record)] => return .remove (← readIndex record)
  | .object [(some "replace", record)] => do
    let (index, value) ← readIndexed record
    return .replace index value
  | _ => .error .malformed

/-- The fields of any edit that were decoded so far. -/
structure EditFields where
  id? : Option String := none
  node? : Option Node := none
  modifiers? : Option (List (SetEdit String)) := none
  supertypes? : Option (List (SetEdit String)) := none
  parameters? : Option (List (ListEdit String)) := none
  lines? : Option (List (ListEdit String)) := none

def readAddNode (j : Json) : Decoded Edit := do
  let fields ← readRecord ["node"] ({} : EditFields) step j
  let node ← required fields.node?
  construct (Edit.addNode node).make
where
  step (fields : EditFields) (name : String) (value : Json) : Option (Decoded EditFields) :=
    match name with
    | "node" => some do return { fields with node? := ← once fields.node? (readNode .inner value) }
    | _ => none

def readRemoveNode (j : Json) : Decoded Edit := do
  let fields ← readRecord ["id"] ({} : EditFields) step j
  let id ← required fields.id?
  construct (Edit.removeNode id).make
where
  step (fields : EditFields) (name : String) (value : Json) : Option (Decoded EditFields) :=
    match name with
    | "id" => some do return { fields with id? := ← once fields.id? (readText value) }
    | _ => none

def readEditType (j : Json) : Decoded Edit := do
  let fields ← readRecord ["id", "modifier_edits", "supertype_edits"] ({} : EditFields) step j
  let id ← required fields.id?
  construct (Edit.editType id (fields.modifiers?.getD []) (fields.supertypes?.getD [])).make
where
  step (fields : EditFields) (name : String) (value : Json) : Option (Decoded EditFields) :=
    match name with
    | "id" => some do return { fields with id? := ← once fields.id? (readText value) }
    | "modifier_edits" =>
      some do
        return { fields with modifiers? := ← once fields.modifiers? (readItems readSetEdit value) }
    | "supertype_edits" =>
      some do
        return { fields with
          supertypes? := ← once fields.supertypes? (readItems readSetEdit value) }
    | _ => none

def readEditFunction (j : Json) : Decoded Edit := do
  let fields ←
    readRecord ["id", "modifier_edits", "parameter_edits", "body_edits"] ({} : EditFields) step j
  let id ← required fields.id?
  construct (Edit.editFunction id (fields.modifiers?.getD []) (fields.parameters?.getD [])
    (fields.lines?.getD [])).make
where
  step (fields : EditFields) (name : String) (value : Json) : Option (Decoded EditFields) :=
    match name with
    | "id" => some do return { fields with id? := ← once fields.id? (readText value) }
    | "modifier_edits" =>
      some do
        return { fields with modifiers? := ← once fields.modifiers? (readItems readSetEdit value) }
    | "parameter_edits" =>
      some do
        return { fields with
          parameters? := ← once fields.parameters? (readItems readListEdit value) }
    | "body_edits" =>
      some do return { fields with lines? := ← once fields.lines? (readItems readListEdit value) }
    | _ => none

def readEditVar (j : Json) : Decoded Edit := do
  let fields ← readRecord ["id", "modifier_edits", "initializer_edits"] ({} : EditFields) step j
  let id ← required fields.id?
  construct (Edit.editVar id (fields.modifiers?.getD []) (fields.lines?.getD [])).make
where
  step (fields : EditFields) (name : String) (value : Json) : Option (Decoded EditFields) :=
    match name with
    | "id" => some do return { fields with id? := ← once fields.id? (readText value) }
    | "modifier_edits" =>
      some do
        return { fields with modifiers? := ← once fields.modifiers? (readItems readSetEdit value) }
    | "initializer_edits" =>
      some do return { fields with lines? := ← once fields.lines? (readItems readListEdit value) }
    | _ => none

def readEdit (place : Place) (j : Json) : Decoded Edit := do
  place.check j
  let (tag, record) ← splitTag place "type"
    ["add_node", "remove_node", "edit_type", "edit_function", "edit_variable"] j
  match tag with
  | 0 => readAddNode record
  | 1 => readRemoveNode record
  | 2 => readEditType record
  | 3 => readEditFunction record
  | _ => readEditVar record

end Codec

end SourceHistory
