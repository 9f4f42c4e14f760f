import SourceHistory.Kind

namespace SourceHistory

inductive VcsError where
  | io (reason : String)
  /-- The process failed; `code` is `none` if a signal ended it. -/
  | subprocess (command : String) (code : Option Int) (stderr : String)
  | timeout (command : String) (seconds : Nat)
  | malformed (message : String)
  | unknownRevision (id : String)
  deriving DecidableEq, Repr

inductive ArgumentFault where
  | notDirectChild (child parent : String)
  | unsortedChildren (noun parent : String)
  | badNodeId (id : String)
  | badSourcePath (path : String)
  | noParser (path : String)
  | badRevisionId (id : String)
  | beforeEpoch (revision date : String)
  | timestampOutOfRange (seconds : Int)
  /-- A refusal in the words of a parser. -/
  | other (message : String)
  deriving DecidableEq, Repr

inductive ParameterFault where
  | listedTwice (name : String)
  | wrongCount (expected actual : Nat)
  deriving DecidableEq, Repr

/-- Why an operation failed. The wording is fixed in `Error.message`, and the class of a caller's
reaction in `Error.toClass`. -/
inductive Error where
  | invalidId (kind : Kind) (id : String)
  | invalidArgument (fault : ArgumentFault)
  | duplicateUnit (path : String)
  | duplicateId (parent id : String)
  /-- Two nodes to compare differ in id or kind. -/
  | idMismatch (before after : String)
  | nodeNotFound (id : String)
  | nodeExists (id : String)
  | wrongKind (id : String) (expected actual : Kind)
  | parentNotFound (id parent : String)
  | invalidParent (id parent : String) (parentKind childKind : Kind)
  | indexOutOfBounds (index length : Nat)
  | duplicateElement (element : String)
  | missingElement (element : String)
  /-- A function has no parameter of a name. -/
  | unresolvedParameter (function name : String)
  | parameterMismatch (function : String) (fault : ParameterFault)
  /-- A parser answered with the unit of another path. -/
  | unitPathMismatch (expected actual : String)
  | vcs (cause : VcsError)
  | config (path message : String)
  deriving DecidableEq, Repr

inductive ErrorClass where
  /-- Refused before anything was touched. -/
  | argument
  /-- The snapshot does not allow the operation. -/
  | state
  | capability
  | config
  deriving DecidableEq, Repr

/-- The stable number of a class. -/
def ErrorClass.code : ErrorClass → Nat
  | argument => 2
  | state => 3
  | capability => 4
  | config => 5

def VcsError.showCode : Option Int → String
  | some code => s!"Some({code})"
  | none => "None"

def VcsError.showSeconds (seconds : Nat) : String :=
  if seconds = 0 then "0ns" else s!"{seconds}s"

def VcsError.message : VcsError → String
  | io reason => "I/O error: " ++ reason
  | subprocess command code stderr =>
    "`" ++ command ++ "` failed with exit code " ++ showCode code ++ ": " ++ stderr
  | timeout command seconds => "`" ++ command ++ "` timed out after " ++ showSeconds seconds
  | malformed message => "malformed output: " ++ message
  | unknownRevision id => "unknown revision '" ++ id ++ "'"

def ArgumentFault.message : ArgumentFault → String
  | notDirectChild child parent => "'" ++ child ++ "' is not a direct child of '" ++ parent ++ "'"
  | unsortedChildren noun parent => noun ++ " of '" ++ parent ++ "' are not in canonical order"
  | badNodeId id => "invalid node id '" ++ id ++ "'"
  | badSourcePath path => "invalid source path '" ++ path ++ "'"
  | noParser path => "no parser accepts '" ++ path ++ "'"
  | badRevisionId id => "invalid revision id '" ++ id ++ "'"
  | beforeEpoch revision date =>
    "revision '" ++ revision ++ "' date " ++ date ++ " is before the epoch"
  | timestampOutOfRange seconds => s!"timestamp {seconds} is out of range"
  | other message => message

def ParameterFault.message : ParameterFault → String
  | listedTwice name => "parameter '" ++ name ++ "' is listed twice"
  | wrongCount expected actual => s!"expected {expected} parameters, got {actual}"

namespace Error

def message : Error → String
  | invalidId kind id => "invalid " ++ kind.name ++ " id '" ++ id ++ "'"
  | invalidArgument fault => "invalid arguments: " ++ fault.message
  | duplicateUnit path => "duplicate source unit '" ++ path ++ "'"
  | duplicateId parent id => "node '" ++ parent ++ "' contains duplicate child '" ++ id ++ "'"
  | idMismatch before after => "can't compare node '" ++ before ++ "' with node '" ++ after ++ "'"
  | nodeNotFound id => "node '" ++ id ++ "' doesn't exist"
  | nodeExists id => "node '" ++ id ++ "' already exists"
  | wrongKind id expected actual =>
    "node '" ++ id ++ "' is a " ++ actual.name ++ ", expected a " ++ expected.name
  | parentNotFound id parent => "parent '" ++ parent ++ "' of node '" ++ id ++ "' doesn't exist"
  | invalidParent id parent parentKind childKind =>
    parentKind.name ++ " '" ++ parent ++ "' can't contain " ++ childKind.name ++ " '" ++ id ++ "'"
  | indexOutOfBounds index length =>
    s!"index {index} is out of bounds for list of length {length}"
  | duplicateElement element => "set already contains " ++ element
  | missingElement element => "set doesn't contain " ++ element
  | unresolvedParameter function name =>
    "function '" ++ function ++ "' has no parameter '" ++ name ++ "'"
  | parameterMismatch function fault =>
    "parameter edits for '" ++ function ++ "' don't preserve its parameters: " ++ fault.message
  | unitPathMismatch expected actual =>
    "parsed unit '" ++ actual ++ "' doesn't match requested path '" ++ expected ++ "'"
  | vcs cause => "version control error: " ++ cause.message
  | config path message => "config error at " ++ path ++ ": " ++ message

def toClass : Error → ErrorClass
  | invalidId .. | invalidArgument .. | duplicateUnit .. | duplicateId ..
  | idMismatch .. => .argument
  | nodeNotFound .. | nodeExists .. | wrongKind .. | parentNotFound .. | invalidParent ..
  | indexOutOfBounds .. | duplicateElement .. | missingElement .. | unresolvedParameter ..
  | parameterMismatch .. | unitPathMismatch .. => .state
  | vcs .. => .capability
  | config .. => .config

def isArgument (e : Error) : Bool := e.toClass = .argument

def isState (e : Error) : Bool := e.toClass = .state

end Error

end SourceHistory
