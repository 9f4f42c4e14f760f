import SourceHistory.Text.Cut

namespace SourceHistory.Text

def dropReturn (line : List Char) : List Char :=
  if line.getLast? = some '\r' then line.dropLast else line

/-- The lines among the pieces between line feeds: the last piece ends no line. -/
def closeLines : List (List Char) → List (List Char)
  | [] => []
  | [last] => if last.isEmpty then [] else [last]
  | line :: next :: rest => dropReturn line :: closeLines (next :: rest)

/-- A line ends at a line feed, and a carriage return right before it belongs to the line end. Text
after the last line feed is a line only if there is any, and keeps a carriage return at its end. -/
def lines (s : List Char) : List (List Char) := closeLines (pieces '\n' s)

end SourceHistory.Text
