import SourceHistory.Text.Printable

namespace SourceHistory.Text

/-- Inside double quotes, quotes and backslashes get a backslash, tab, carriage return, line feed
and the null character their usual letters, and every other character that cannot be shown is
written by its number in hexadecimal. -/
def quotedChar (c : Char) : List Char :=
  if c = '\x00' then ['\\', '0']
  else if c = '\t' then ['\\', 't']
  else if c = '\r' then ['\\', 'r']
  else if c = '\n' then ['\\', 'n']
  else if c = '"' ∨ c = '\\' then ['\\', c]
  else if isPrintable c then [c]
  else ['\\', 'u', '\x7b'] ++ Nat.toDigits 16 c.toNat ++ ['\x7d']

end SourceHistory.Text

namespace SourceHistory

/-- A type whose values can be named in a message. -/
class Quoted (α : Type) where
  quoted : α → String

instance : Quoted String where
  quoted s := String.ofList ('"' :: s.toList.flatMap Text.quotedChar ++ ['"'])

end SourceHistory
