import SourceHistory.Edit.Basic
import SourceHistory.Revision

namespace SourceHistory

/-- What one revision changed, in the order in which the edits apply. -/
structure Transaction where
  revisionId : String
  date : Time.Instant
  author : String
  edits : List Edit
  deriving DecidableEq

namespace Transaction

def ofRevision (revision : Revision) (edits : List Edit) : Transaction :=
  ⟨revision.id, revision.date, revision.author, edits⟩

def isEmpty (t : Transaction) : Bool := t.edits.isEmpty

def changedPaths (t : Transaction) : NameSet := .ofList (t.edits.map Edit.sourcePath)

end Transaction

end SourceHistory
