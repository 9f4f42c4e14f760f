import SourceHistory.Collections
import SourceHistory.Error
import SourceHistory.Json.Reader

namespace SourceHistory

/-- Why a document could not be decoded. -/
inductive DecodeError where
  | malformed
  | refused (error : Error)
  deriving DecidableEq

abbrev Decoded (α : Type) := Except DecodeError α

namespace Codec

variable {α σ : Type}

def construct (result : Except Error α) : Decoded α :=
  match result with
  | .ok value => .ok value
  | .error error => .error (.refused error)

def readText : Json → Decoded String
  | .string (some s) => .ok s
  | _ => .error .malformed

def readNatural : Json → Decoded Nat
  | .number literal =>
    match literal.natural64? with
    | some n => .ok n
    | none => .error .malformed
  | _ => .error .malformed

def readItems (read : Json → Decoded α) : Json → Decoded (List α)
  | .array items => items.mapM read
  | _ => .error .malformed

def readTexts (j : Json) : Decoded (List String) := readItems readText j

/-- A set of strings; repeated ones count once. -/
def readNames (j : Json) : Decoded NameSet := do
  return .ofList (← readTexts j)

/-- The fields of a record whose fields are called `names`, from an object or from an array. An
array with more items than names ends in a field that cannot be read. -/
def recordFields (names : List String) : Json → Decoded (List (Option String × Json))
  | .object fields => .ok fields
  | .array items =>
    .ok ((names.zip items).map (fun (name, item) => (some name, item)) ++
      if names.length < items.length then [(none, .broken)] else [])
  | _ => .error .malformed

/-- Decodes the fields in order. `step` takes a field into what was decoded before, or is `none` if
there is no field of that name; such a field must at least be JSON. -/
def readFields (step : σ → String → Json → Option (Decoded σ)) :
    σ → List (Option String × Json) → Decoded σ
  | state, [] => .ok state
  | _, (none, _) :: _ => .error .malformed
  | state, (some name, value) :: rest =>
    match step state name value with
    | some result => do
      let state ← result
      readFields step state rest
    | none => if value.isSkippable then readFields step state rest else .error .malformed

def readRecord (names : List String) (initial : σ)
    (step : σ → String → Json → Option (Decoded σ)) (j : Json) : Decoded σ := do
  let fields ← recordFields names j
  readFields step initial fields

def once (slot : Option α) (value : Decoded α) : Decoded (Option α) :=
  match slot with
  | some _ => .error .malformed
  | none => value.map some

def required (slot : Option α) : Decoded α :=
  match slot with
  | some value => .ok value
  | none => .error .malformed

def maxDepth : Nat := 127

/-- Where a tagged value stands: by itself in the text, or inside another tagged value. -/
inductive Place where
  | outer (depth : Nat)
  | inner

/-- Only the outermost tagged value of a text is read in full before its parts are decoded, so only
there the number of open arrays and objects, the range of numbers and the text of all strings
matter. -/
def Place.check (place : Place) (j : Json) : Decoded Unit :=
  match place with
  | outer depth => if j.isSound (maxDepth - depth) then .ok () else .error .malformed
  | inner => .ok ()

/-- The number of a tag among `tags`. Inside another tagged value a tag may be given by number. -/
def readTag (place : Place) (tags : List String) (j : Json) : Decoded Nat :=
  match place, j with
  | _, .string (some s) => required (tags.idxOf? s)
  | .inner, .number literal => required (literal.natural64?.filter (· < tags.length))
  | _, _ => .error .malformed

/-- Takes the tag out of a tagged value: its number among `tags`, and the record without it. -/
def splitTag (place : Place) (key : String) (tags : List String) : Json → Decoded (Nat × Json)
  | .object fields =>
    match fields.filter fun field => field.1 = some key with
    | [(_, tag)] => do
      let tag ← readTag place tags tag
      return (tag, .object (fields.filter fun field => field.1 ≠ some key))
    | _ => .error .malformed
  | .array (tag :: items) => do
    let tag ← readTag place tags tag
    return (tag, .array items)
  | _ => .error .malformed

/-- Decodes a whole text; nothing but blanks may follow the value. -/
def decode (read : Json → Decoded α) (text : String) : Decoded α := do
  let document := Json.read text
  let value ← read document.value
  if document.ends then .ok value else .error .malformed

def optionalField (key : String) (items : List Json) : List (String × Json) :=
  if items.isEmpty then [] else [(key, .array items)]

end Codec

end SourceHistory
