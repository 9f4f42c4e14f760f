import SourceHistory.Json.Numeral

namespace SourceHistory

/-- A JSON value with its fields in document order, repeated keys among them. The text of a string
or a key is `none` if its escapes name half of a surrogate pair, which is no character. -/
inductive Json where
  | null
  | bool (value : Bool)
  | number (literal : Json.Numeral)
  | string (text : Option String)
  | array (items : List Json)
  | object (fields : List (Option String × Json))
  /-- The text is not JSON from here on, and nothing comes after it. -/
  | broken

namespace Json

def text (s : String) : Json := string (some s)

def texts (ss : List String) : Json := array (ss.map text)

def nat (n : Nat) : Json := number (.ofNat n)

def int (n : Int) : Json := number (.ofInt n)

def record (fields : List (String × Json)) : Json :=
  object (fields.map fun (key, value) => (some key, value))

mutual

/-- Whether a value can be passed over: it is JSON up to its end. -/
def isSkippable : Json → Bool
  | null => true
  | bool _ => true
  | number _ => true
  | string _ => true
  | array items => allSkippable items
  | object fields => fieldsSkippable fields
  | broken => false

def allSkippable : List Json → Bool
  | [] => true
  | item :: items => isSkippable item && allSkippable items

def fieldsSkippable : List (Option String × Json) → Bool
  | [] => true
  | (_, value) :: fields => isSkippable value && fieldsSkippable fields

end

mutual

/-- Whether a value can be read in full: at most `room` arrays and objects are open at once, every
string and key is text, and every number is in range. -/
def isSound (room : Nat) : Json → Bool
  | null => true
  | bool _ => true
  | number literal => literal.fitsDouble
  | string text => text.isSome
  | array items => 0 < room && allSound (room - 1) items
  | object fields => 0 < room && fieldsSound (room - 1) fields
  | broken => false

def allSound (room : Nat) : List Json → Bool
  | [] => true
  | item :: items => isSound room item && allSound room items

def fieldsSound (room : Nat) : List (Option String × Json) → Bool
  | [] => true
  | (key, value) :: fields => key.isSome && isSound room value && fieldsSound room fields

end

end Json

end SourceHistory
