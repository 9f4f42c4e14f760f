import SourceHistory.History

namespace SourceHistory

/-- A repository seen through a parser: questions about its current revision, answered without
replaying its history. -/
structure Repository where
  vcs : VersionControl
  parser : Parser

namespace Repository

open VersionControl (lift)

def checkPath (path : String) : Except Error Unit :=
  if Id.isValidPath path then .ok () else .error (.invalidArgument (.badSourcePath path))

def headId (r : Repository) : Except Error String := do
  let head ← lift r.vcs.headRevision
  return head.id

def listRevisions (r : Repository) : Except Error (List String) := do
  let revisions ← lift r.vcs.listRevisions
  return revisions.map Revision.id

def revision (r : Repository) (id : String) : Except Error (Option Revision) :=
  lift (r.vcs.revision id)

def pathHistory (r : Repository) (path : String) : Except Error (List Revision) := do
  checkPath path
  lift (r.vcs.pathHistory path)

/-- The current files that the parser accepts and that can name a unit. -/
def listSources (r : Repository) : Except Error (List String) := do
  let head ← lift r.vcs.headRevision
  let files ← lift (r.vcs.listFiles head.id)
  return History.relevantPaths r.parser files

/-- The newest version of a file that parses, back to its last deletion; `revisions` are given
newest first. -/
def latestAmong (r : Repository) (path : String) :
    (revisions : List Revision) → Except Error SourceUnit
  | [] => SourceUnit.empty path
  | revision :: older => do
    match ← lift (r.vcs.fileContent revision.id path) with
    | none => SourceUnit.empty path
    | some bytes =>
      match ← r.parser.parseContent path bytes with
      | .parsed unit => return unit
      | .syntaxError => latestAmong r path older

/-- The newest version of a file that parses, or an empty unit if there is none after the last
deletion. -/
def latestParsed (r : Repository) (path : String) : Except Error SourceUnit := do
  let revisions ← lift (r.vcs.pathHistory path)
  latestAmong r path revisions.reverse

def source (r : Repository) (path : String) : Except Error (Option SourceUnit) := do
  checkPath path
  if r.parser.accepts path then
    let head ← lift r.vcs.headRevision
    let files ← lift (r.vcs.listFiles head.id)
    if files.contains path then return some (← r.latestParsed path) else return none
  else return none

def snapshot (r : Repository) : Except Error Snapshot := do
  let paths ← r.listSources
  let units ← paths.mapM r.latestParsed
  Snapshot.ofUnits units

end Repository

end SourceHistory
