import SourceHistory.Diff
import SourceHistory.Parser
import SourceHistory.Transaction
import SourceHistory.VersionControl

namespace SourceHistory

/-- A history that was read so far: what is still to come, and the snapshot after what came. -/
structure History where
  vcs : VersionControl
  parser : Parser
  /-- Whether revisions that change nothing yield a transaction too. -/
  emitEmpty : Bool
  pending : List Revision
  snapshot : Snapshot
  failed : Bool

namespace History

def start (vcs : VersionControl) (parser : Parser) (emitEmpty : Bool) : Except Error History := do
  let revisions ← VersionControl.lift vcs.listRevisions
  return ⟨vcs, parser, emitEmpty, revisions, .empty, false⟩

/-- A file without content has no unit. A file that does not parse keeps the unit `current` that it
had, or gets an empty one. -/
def resolve (parser : Parser) (path : String) (current : Option SourceUnit)
    (content : Option (List UInt8)) : Except Error (Option SourceUnit) :=
  match content with
  | none => .ok none
  | some bytes => do
    match ← parser.parseContent path bytes with
    | .parsed unit => return some unit
    | .syntaxError =>
      match current with
      | some unit => return some unit
      | none => return some (← SourceUnit.empty path)

def pathEdits (vcs : VersionControl) (parser : Parser) (snapshot : Snapshot) (revision : Revision)
    (path : String) : Except Error (List Edit) := do
  let current := snapshot.units[path]?
  let content ← VersionControl.lift (vcs.fileContent revision.id path)
  let resolved ← resolve parser path current content
  diffUnit current resolved

/-- The changed paths that matter: the parser accepts them and they can name a unit. -/
def relevantPaths (parser : Parser) (changed : NameSet) : List String :=
  changed.toList.filter fun path => parser.accepts path && Id.isValidPath path

/-- The edits for all changed paths at a revision, each against the same snapshot. -/
def revisionEdits (vcs : VersionControl) (parser : Parser) (snapshot : Snapshot)
    (revision : Revision) : Except Error (List Edit) := do
  let changed ← VersionControl.lift (vcs.changedPaths revision.id)
  let edits ← (relevantPaths parser changed).mapM (pathEdits vcs parser snapshot revision)
  return edits.flatten

def process (h : History) (revision : Revision) : Snapshot × Except Error Transaction :=
  match revisionEdits h.vcs h.parser h.snapshot revision with
  | .error error => (h.snapshot, .error error)
  | .ok edits =>
    let result := h.snapshot.applyAll edits
    match result.error? with
    | some error => (result.state, .error error)
    | none => (result.state, .ok (.ofRevision revision edits))

/-- Goes through `pending` up to the next transaction to yield. -/
def advance (h : History) : (pending : List Revision) → History × Option (Except Error Transaction)
  | [] => ({ h with pending := [] }, none)
  | revision :: rest =>
    match h.process revision with
    | (snapshot, .error error) =>
      ({ h with pending := rest, snapshot := snapshot, failed := true }, some (.error error))
    | (snapshot, .ok transaction) =>
      let h := { h with pending := rest, snapshot := snapshot }
      if transaction.isEmpty && !h.emitEmpty then advance h rest
      else (h, some (.ok transaction))

/-- The next transaction, or the error that ends the history, or nothing at its end. -/
def next (h : History) : History × Option (Except Error Transaction) :=
  if h.failed then (h, none) else h.advance h.pending

def collect (h : History) : (pending : List Revision) → Except Error (List Transaction × Snapshot)
  | [] => .ok ([], h.snapshot)
  | revision :: rest =>
    match h.process revision with
    | (_, .error error) => .error error
    | (snapshot, .ok transaction) => do
      let (transactions, final) ← collect { h with snapshot := snapshot } rest
      return (if transaction.isEmpty && !h.emitEmpty then transactions
        else transaction :: transactions, final)

def build (vcs : VersionControl) (parser : Parser) (emitEmpty : Bool) :
    Except Error (List Transaction × Snapshot) := do
  let history ← start vcs parser emitEmpty
  history.collect history.pending

end History

end SourceHistory
