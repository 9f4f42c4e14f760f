import SourceHistory.Json.Basic

namespace SourceHistory.Json

open Text

def escape (c : Char) : List Char :=
  if c = '"' ∨ c = '\\' then ['\\', c]
  else if c = '\x08' then ['\\', 'b']
  else if c = '\x0c' then ['\\', 'f']
  else if c = '\n' then ['\\', 'n']
  else if c = '\r' then ['\\', 'r']
  else if c = '\t' then ['\\', 't']
  else if c.toNat < 0x20 then
    ['\\', 'u', '0', '0', Nat.digitChar (c.toNat / 16), Nat.digitChar (c.toNat % 16)]
  else [c]

def quote (s : String) : List Char := '"' :: s.toList.flatMap escape ++ ['"']

mutual

/-- A value as compact text; what could not be read has none. -/
def render : Json → List Char
  | null => ['n', 'u', 'l', 'l']
  | bool true => ['t', 'r', 'u', 'e']
  | bool false => ['f', 'a', 'l', 's', 'e']
  | number literal => literal.render
  | string text => quote (text.getD "")
  | array items => '[' :: renderItems items ++ [']']
  | object fields => '\x7b' :: renderFields fields ++ ['\x7d']
  | broken => []

def renderItems : List Json → List Char
  | [] => []
  | [item] => render item
  | item :: next :: items => render item ++ ',' :: renderItems (next :: items)

def renderFields : List (Option String × Json) → List Char
  | [] => []
  | [(key, value)] => quote (key.getD "") ++ ':' :: render value
  | (key, value) :: next :: fields =>
    quote (key.getD "") ++ ':' :: render value ++ ',' :: renderFields (next :: fields)

end

def compact (j : Json) : String := String.ofList j.render

end SourceHistory.Json
