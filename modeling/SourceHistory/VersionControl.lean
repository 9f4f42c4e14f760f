import SourceHistory.Collections
import SourceHistory.Revision

namespace SourceHistory

/-- Read access to a repository along one line of revisions, oldest first. Answers are functions of
the revision id and the path, so two calls with the same arguments see the same repository. -/
structure VersionControl where
  headRevision : Except VcsError Revision
  listRevisions : Except VcsError (List Revision)
  revision : (id : String) → Except VcsError (Option Revision)
  /-- The revisions that changed a path, oldest first. -/
  pathHistory : (path : String) → Except VcsError (List Revision)
  /-- The paths that a revision added, modified or deleted. -/
  changedPaths : (id : String) → Except VcsError NameSet
  listFiles : (id : String) → Except VcsError NameSet
  fileContent : (id path : String) → Except VcsError (Option (List UInt8))

namespace VersionControl

def filterChanged (changedPaths : String → Except VcsError NameSet) (path : String) :
    (revisions : List Revision) → Except VcsError (List Revision)
  | [] => .ok []
  | revision :: rest => do
    let changed ← changedPaths revision.id
    let history ← filterChanged changedPaths path rest
    return if changed.contains path then revision :: history else history

/-- The history of a path by looking at what every revision changed. -/
def scanHistory (listRevisions : Except VcsError (List Revision))
    (changedPaths : String → Except VcsError NameSet) (path : String) :
    Except VcsError (List Revision) := do
  let revisions ← listRevisions
  filterChanged changedPaths path revisions

def lift {α : Type} (answer : Except VcsError α) : Except Error α := answer.mapError .vcs

end VersionControl

end SourceHistory
