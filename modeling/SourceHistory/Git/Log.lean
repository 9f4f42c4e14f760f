import SourceHistory.Collections
import SourceHistory.Revision
import SourceHistory.Text.Blank
import SourceHistory.Text.Lines

namespace SourceHistory.Git

open Text

def commitMark : List Char := ['c', 'o', 'm', 'm', 'i', 't', ' ']

def inQuotes (s : List Char) : String := "'" ++ String.ofList s ++ "'"

def commitId (line : List Char) : Except VcsError String :=
  if commitMark.isPrefixOf line then .ok (String.ofList (line.drop commitMark.length))
  else .error (.malformed ("expected a commit line, got " ++ inQuotes line))

def commitDetails (id : String) (line : List Char) : Except VcsError Revision :=
  match cutFirst? ':' line with
  | none => .error (.malformed ("expected '<time>:<author>', got " ++ inQuotes line))
  | some (time, author) =>
    match int64? time with
    | none => .error (.malformed ("invalid commit time " ++ inQuotes time))
    | some seconds =>
      (Revision.ofSeconds id seconds (String.ofList author)).mapError
        fun error => .malformed error.message

def commitsOfLines : List (List Char) → Except VcsError (List Revision)
  | first :: second :: rest => do
    let id ← commitId first
    let revision ← commitDetails id second
    let revisions ← commitsOfLines rest
    return revision :: revisions
  | _ => .ok []

def contentLines (raw : List Char) : List (List Char) := (lines raw).filter fun line => line ≠ []

/-- A log has two lines for each commit, the first with its id, the second with its time and author;
empty lines do not count. -/
def parseLog (raw : List Char) : Except VcsError (List Revision) :=
  let count := (contentLines raw).length
  if count % 2 = 0 then commitsOfLines (contentLines raw)
  else .error (.malformed s!"odd number of rev-list lines: {count}")

/-- The paths of a list; lines of blanks do not count. -/
def parsePaths (raw : List Char) : NameSet :=
  .ofList (((lines raw).filter fun line => trim line ≠ []).map String.ofList)

end SourceHistory.Git
