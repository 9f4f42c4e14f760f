import SourceHistory.Config
import SourceHistory.Git.Log
import SourceHistory.Git.Session
import SourceHistory.VersionControl

namespace SourceHistory.Git

open Text Session

/-- How git is run: the program, its time limit, and the path from the top of the working tree to
the directory in which it runs. -/
structure Driver where
  binary : String
  timeoutSeconds : Nat
  directory : String

structure Output where
  code : Option Int
  stdout : List UInt8
  stderr : String

def Output.succeeded (o : Output) : Bool := o.code = some 0

def head : String := "HEAD"

def commitFormat : String := "--format=%ct:%an"

def commitObject (id : String) : String := id ++ "^\x7bcommit\x7d"

/-- The arguments that come before those of every command: paths are to be written as they are. -/
def commonArgs : List String := ["-c", "core.quotePath=false"]

def isArgument (s : String) : Bool := !s.toList.contains '\x00'

namespace Driver

def commandText (d : Driver) (args : List String) : String :=
  d.binary ++ " " ++ " ".intercalate args

def outputOf (d : Driver) (args : List String) : Reply → Except VcsError Output
  | .notStarted reason => .error (.io reason)
  | .lost reason => .error (.io reason)
  | .unread => .error (.malformed "output reader thread panicked")
  | .timedOut => .error (.timeout (d.commandText args) d.timeoutSeconds)
  | .exited code stdout stderr => .ok ⟨code, stdout, String.ofList (trim (repairUtf8 stderr))⟩

def command (d : Driver) (args : List String) : Session Output :=
  if isArgument d.binary && args.all isArgument then
    .run (commonArgs ++ args) fun reply => ofExcept (d.outputOf args reply)
  else fail (.io "nul byte found in provided data")

def checked (d : Driver) (args : List String) : Session (List UInt8) := do
  let output ← d.command args
  if output.succeeded then return output.stdout
  else fail (.subprocess (d.commandText args) output.code output.stderr)

/-- Fails on output that is not UTF-8. -/
def text (d : Driver) (args : List String) : Session (List Char) := do
  let stdout ← d.checked args
  match charsOfUtf8 0 stdout with
  | .ok text => return text
  | .error fault => fail (.malformed ("git output is not UTF-8: " ++ fault.message))

/-- Opens the repository around the directory in which git runs. -/
def connect (config : GitConfig) : Session Driver := do
  let d : Driver := ⟨config.binary, config.timeoutSeconds, ""⟩
  let stdout ← d.checked ["rev-parse", "--show-prefix"]
  return { d with directory := String.ofList (trim (repairUtf8 stdout)) }

/-- An id reaches a command line only if it consists of letters and digits. -/
def validate (d : Driver) (id : String) : Session Unit :=
  if Revision.isValidId id then do
    let output ← d.command ["cat-file", "-e", commitObject id]
    if output.succeeded then return () else fail (.unknownRevision id)
  else fail (.unknownRevision id)

def hasCommits (d : Driver) : Session Bool := do
  let output ← d.command ["rev-parse", "--verify", "-q", head]
  return output.succeeded

def headRevision (d : Driver) : Session Revision := do
  if ← d.hasCommits then
    let raw ← d.text ["rev-list", "-1", commitFormat, head]
    let revisions ← ofExcept (parseLog raw)
    match revisions.getLast? with
    | some revision => return revision
    | none => fail (.unknownRevision head)
  else fail (.unknownRevision head)

def listRevisions (d : Driver) : Session (List Revision) := do
  if ← d.hasCommits then
    let raw ← d.text ["rev-list", "--first-parent", "--reverse", commitFormat, head]
    ofExcept (parseLog raw)
  else return []

def revision (d : Driver) (id : String) : Session (Option Revision) := do
  if !Revision.isValidId id then return none
  else if ← d.hasCommits then
    let output ← d.command ["rev-list", "-1", commitFormat, commitObject id]
    if output.succeeded then
      let revisions ← ofExcept (parseLog (repairUtf8 output.stdout))
      return revisions.getLast?
    else return none
  else return none

def pathHistory (d : Driver) (path : String) : Session (List Revision) := do
  if ← d.hasCommits then
    let raw ←
      d.text ["rev-list", "--first-parent", "--reverse", commitFormat, head, "--", path]
    ofExcept (parseLog raw)
  else return []

def changedPaths (d : Driver) (id : String) : Session NameSet := do
  d.validate id
  let raw ← d.text
    ["diff-tree", "-m", "-r", "--root", "--name-only", "--relative", "--no-commit-id", id]
  return parsePaths raw

def listFiles (d : Driver) (id : String) : Session NameSet := do
  d.validate id
  let raw ← d.text ["ls-tree", "-r", "--name-only", id]
  return parsePaths raw

def fileContent (d : Driver) (id path : String) : Session (Option (List UInt8)) := do
  d.validate id
  let output ← d.command ["cat-file", "blob", id ++ ":" ++ d.directory ++ path]
  return if output.succeeded then some output.stdout else none

/-- The driver over a git with fixed replies. -/
def toVersionControl (d : Driver) (git : List String → Reply) : VersionControl where
  headRevision := d.headRevision.eval git
  listRevisions := d.listRevisions.eval git
  revision id := (d.revision id).eval git
  pathHistory path := (d.pathHistory path).eval git
  changedPaths id := (d.changedPaths id).eval git
  listFiles id := (d.listFiles id).eval git
  fileContent id path := (d.fileContent id path).eval git

end Driver

def isAvailable (git : List String → Reply) : Bool :=
  match git ["--version"] with
  | .exited code _ _ => code = some 0
  | _ => false

end SourceHistory.Git
