import SourceHistory.Error
import SourceHistory.Text.Alphanumeric
import SourceHistory.Time.Instant

namespace SourceHistory

structure Revision where
  id : String
  date : Time.Instant
  author : String
  deriving DecidableEq

namespace Revision

/-- Ids are nonempty and consist of letters and numbers of any script. -/
def isValidId (id : String) : Bool := id.toList ≠ [] && id.toList.all Text.isAlphanumeric

/-- The date must not lie before the epoch. -/
def make (id : String) (date : Time.Instant) (author : String) : Except Error Revision :=
  if !isValidId id then .error (.invalidArgument (.badRevisionId id))
  else if date.seconds < 0 then .error (.invalidArgument (.beforeEpoch id date.display))
  else .ok ⟨id, date, author⟩

def ofSeconds (id : String) (seconds : Int) (author : String) : Except Error Revision :=
  match Time.Instant.ofSeconds? seconds with
  | some date => make id date author
  | none => .error (.invalidArgument (.timestampOutOfRange seconds))

end Revision

end SourceHistory
