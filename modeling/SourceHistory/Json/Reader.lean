import SourceHistory.Json.Token

namespace SourceHistory.Json

/-- An array or an object that is open: what it holds so far, newest first, and the key that was
read last. -/
inductive Frame where
  | array (items : List Json)
  | object (fields : List (Option String × Json)) (key : Option String)

inductive Mode where
  | value
  /-- A value, or the end of an array that is empty so far. -/
  | firstItem
  /-- A key, or the end of an object that is empty so far. -/
  | firstKey
  | key
  | colon
  /-- A comma or the end, after a value. -/
  | next

inductive Step where
  | go (mode : Mode) (stack : List Frame)
  | finished (value : Json)
  | stuck

/-- A complete value goes into the innermost open frame, or is the whole document. -/
def settle (value : Json) : List Frame → Step
  | [] => .finished value
  | .array items :: stack => .go .next (.array (value :: items) :: stack)
  | .object fields key :: stack => .go .next (.object ((key, value) :: fields) key :: stack)

def stepValue (stack : List Frame) : Token → Step
  | .openArray => .go .firstItem (.array [] :: stack)
  | .openObject => .go .firstKey (.object [] none :: stack)
  | .null => settle .null stack
  | .bool value => settle (.bool value) stack
  | .number literal => settle (.number literal) stack
  | .string text => settle (.string text) stack
  | _ => .stuck

def stepKey : (stack : List Frame) → Token → Step
  | .object fields _ :: stack, .string text => .go .colon (.object fields text :: stack)
  | _, _ => .stuck

def stepNext : (stack : List Frame) → Token → Step
  | .array items :: stack, .comma => .go .value (.array items :: stack)
  | .array items :: stack, .closeArray => settle (.array items.reverse) stack
  | .object fields key :: stack, .comma => .go .key (.object fields key :: stack)
  | .object fields _ :: stack, .closeObject => settle (.object fields.reverse) stack
  | _, _ => .stuck

def step : Mode → (stack : List Frame) → Token → Step
  | .value, stack, token => stepValue stack token
  | .firstItem, .array [] :: stack, .closeArray => settle (.array []) stack
  | .firstItem, stack, token => stepValue stack token
  | .firstKey, .object [] _ :: stack, .closeObject => settle (.object []) stack
  | .firstKey, stack, token => stepKey stack token
  | .key, stack, token => stepKey stack token
  | .colon, stack, .colon => .go .value stack
  | .colon, _, _ => .stuck
  | .next, stack, token => stepNext stack token

def closeAround (value : Json) : List Frame → Json
  | [] => value
  | .array items :: stack => closeAround (.array (items.reverse ++ [value])) stack
  | .object fields key :: stack => closeAround (.object (fields.reverse ++ [(key, value)])) stack

/-- A document: its value, and whether nothing but blanks follows it. -/
structure Document where
  value : Json
  ends : Bool

/-- If a token does not fit, or the tokens end too early, `broken` takes the place of what was due,
and everything that is open is closed around it. -/
def readFrom : Mode → (stack : List Frame) → List Token → Document
  | _, stack, [] => ⟨closeAround .broken stack, true⟩
  | mode, stack, token :: rest =>
    match step mode stack token with
    | .go mode stack => readFrom mode stack rest
    | .finished value => ⟨value, rest.isEmpty⟩
    | .stuck => ⟨closeAround .broken stack, false⟩

def read (s : String) : Document := readFrom .value [] (tokens s.toList)

end SourceHistory.Json
