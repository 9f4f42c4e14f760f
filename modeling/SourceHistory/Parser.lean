import SourceHistory.Codec.Node
import SourceHistory.Text.Utf8

namespace SourceHistory

inductive ParseOutcome where
  | parsed (unit : SourceUnit)
  | syntaxError
  deriving DecidableEq

/-- The paths that a parser accepts, and what it makes of a path and the text of its file. -/
structure Parser where
  accepts : String → Bool
  parse : (path raw : String) → Except Error ParseOutcome

namespace Parser

/-- Parses text for a valid path; the unit must be the one of that path. -/
def parseSource (parser : Parser) (path raw : String) : Except Error ParseOutcome :=
  if Id.isValidPath path then do
    let outcome ← parser.parse path raw
    match outcome with
    | .parsed unit =>
      if unit.path = path then return .parsed unit
      else throw (.unitPathMismatch path unit.path)
    | .syntaxError => return .syntaxError
  else .error (.invalidArgument (.badSourcePath path))

/-- Parses the bytes of a file; bytes that are not UTF-8 are a syntax error. -/
def parseContent (parser : Parser) (path : String) (bytes : List UInt8) :
    Except Error ParseOutcome :=
  match Text.decodeUtf8 bytes with
  | .ok raw => parser.parseSource path raw
  | .error _ => .ok .syntaxError

/-- The first of several parsers that accepts a path. -/
def firstOf (parsers : List Parser) : Parser where
  accepts path := parsers.any fun parser => parser.accepts path
  parse path raw :=
    match parsers.find? fun parser => parser.accepts path with
    | some parser => parser.parse path raw
    | none => .error (.invalidArgument (.noParser path))

/-- Whether what follows the last dot of a path is `extension`, and a name stands before it. -/
def hasExtension (extension path : String) : Bool :=
  match Text.cutLast? '.' path.toList with
  | some (stem, rest) =>
    stem ≠ [] && stem.getLast? ≠ some '/' && rest = extension.toList
  | none => false

/-- Reads units that are stored as JSON. Whatever does not decode is a syntax error. -/
def json (extension : String) : Parser where
  accepts := hasExtension extension
  parse _ raw :=
    match Codec.decode Codec.readWholeUnit raw with
    | .ok unit => .ok (.parsed unit)
    | .error _ => .ok .syntaxError

end Parser

end SourceHistory
