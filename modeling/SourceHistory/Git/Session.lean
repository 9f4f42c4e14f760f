import SourceHistory.Error

namespace SourceHistory.Git

inductive Reply where
  | notStarted (reason : String)
  /-- Waiting for the program or reading what it wrote failed. -/
  | lost (reason : String)
  /-- A reader of what the program wrote broke down. -/
  | unread
  | timedOut
  /-- The program ended; `code` is `none` if a signal ended it. -/
  | exited (code : Option Int) (stdout stderr : List UInt8)

/-- A conversation with git as a tree: it is over, or runs a command and goes on according to the
reply. -/
inductive Session (α : Type) where
  | done (result : Except VcsError α)
  | run (args : List String) (next : Reply → Session α)

namespace Session

variable {α β : Type}

def bind (s : Session α) (f : α → Session β) : Session β :=
  match s with
  | done (.ok value) => f value
  | done (.error error) => done (.error error)
  | run args next => run args fun reply => (next reply).bind f

instance : Monad Session where
  pure value := done (.ok value)
  bind := bind

def fail (error : VcsError) : Session α := done (.error error)

def ofExcept (result : Except VcsError α) : Session α := done result

def eval (git : List String → Reply) : Session α → Except VcsError α
  | done result => result
  | run args next => (next (git args)).eval git

/-- The commands of a conversation in which git replies with `replies` in order; it breaks off when
they are used up. -/
def commands : (replies : List Reply) → Session α → List (List String)
  | _, done _ => []
  | [], run args _ => [args]
  | reply :: replies, run args next => args :: commands replies (next reply)

end Session

end SourceHistory.Git
