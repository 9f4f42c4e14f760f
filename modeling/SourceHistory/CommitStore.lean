import SourceHistory.VersionControl

namespace SourceHistory

/-- A revision and what it does to files: new content for a path, or `none` to delete it. -/
structure Commit where
  revision : Revision
  changes : NameMap (Option (List UInt8))

namespace Commit

def empty (revision : Revision) : Commit := ⟨revision, ∅⟩

/-- An earlier change of the path no longer counts. -/
def write (c : Commit) (path : String) (content : List UInt8) : Commit :=
  { c with changes := c.changes.insert path (some content) }

def delete (c : Commit) (path : String) : Commit :=
  { c with changes := c.changes.insert path none }

end Commit

/-- A commit as it is stored: which paths it changed, and all files after it. -/
structure StoredCommit where
  revision : Revision
  changed : NameSet
  files : NameMap (List UInt8)

structure CommitStore where
  commits : List StoredCommit

namespace CommitStore

def empty : CommitStore := ⟨[]⟩

def find? (store : CommitStore) (id : String) : Option StoredCommit :=
  store.commits.find? fun c => c.revision.id = id

def headFiles (store : CommitStore) : NameMap (List UInt8) :=
  match store.commits.getLast? with
  | some c => c.files
  | none => ∅

def changeFile (files : NameMap (List UInt8)) (change : String × Option (List UInt8)) :
    NameMap (List UInt8) :=
  match change.2 with
  | some content => files.insert change.1 content
  | none => files.erase change.1

/-- Adds a commit after the last one; its revision id must be new. -/
def add (store : CommitStore) (commit : Commit) : Except VcsError CommitStore :=
  if (store.find? commit.revision.id).isSome then
    .error (.malformed ("duplicate revision '" ++ commit.revision.id ++ "'"))
  else
    .ok ⟨store.commits ++ [{
      revision := commit.revision
      changed := .ofList commit.changes.keys
      files := commit.changes.toList.foldl changeFile store.headFiles }]⟩

def get (store : CommitStore) (id : String) : Except VcsError StoredCommit :=
  match store.find? id with
  | some c => .ok c
  | none => .error (.unknownRevision id)

def headRevision (store : CommitStore) : Except VcsError Revision :=
  match store.commits.getLast? with
  | some c => .ok c.revision
  | none => .error (.unknownRevision "HEAD")

def listRevisions (store : CommitStore) : List Revision :=
  store.commits.map StoredCommit.revision

def changedPaths (store : CommitStore) (id : String) : Except VcsError NameSet :=
  (store.get id).map StoredCommit.changed

def listFiles (store : CommitStore) (id : String) : Except VcsError NameSet :=
  (store.get id).map fun c => .ofList c.files.keys

def fileContent (store : CommitStore) (id path : String) :
    Except VcsError (Option (List UInt8)) :=
  (store.get id).map fun c => c.files[path]?

def toVersionControl (store : CommitStore) : VersionControl where
  headRevision := store.headRevision
  listRevisions := .ok store.listRevisions
  revision id := .ok ((store.find? id).map StoredCommit.revision)
  pathHistory := VersionControl.scanHistory (.ok store.listRevisions) store.changedPaths
  changedPaths := store.changedPaths
  listFiles := store.listFiles
  fileContent := store.fileContent

end CommitStore

end SourceHistory
