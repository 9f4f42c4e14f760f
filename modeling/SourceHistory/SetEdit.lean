import SourceHistory.Collections
import SourceHistory.Error
import SourceHistory.Text.Quoted

namespace SourceHistory

inductive SetEdit (α : Type) where
  | add (value : α)
  | remove (value : α)
  deriving DecidableEq, Repr

namespace SetEdit

variable {α : Type} [Ord α] [Std.TransOrd α]

/-- Fails if the element to add is there or the one to remove is not. -/
def applyTo [Quoted α] (set : Std.ExtTreeSet α) : SetEdit α → Except Error (Std.ExtTreeSet α)
  | add value =>
    if set.contains value then .error (.duplicateElement (Quoted.quoted value))
    else .ok (set.insert value)
  | remove value =>
    if set.contains value then .ok (set.erase value)
    else .error (.missingElement (Quoted.quoted value))

def apply [Quoted α] (set : Std.ExtTreeSet α) (edits : List (SetEdit α)) :
    Except Error (Std.ExtTreeSet α) :=
  edits.foldlM applyTo set

/-- Additions come before removals, both in ascending order. -/
def diff (src dst : Std.ExtTreeSet α) : List (SetEdit α) :=
  (dst.toList.filter fun value => !src.contains value).map add ++
    (src.toList.filter fun value => !dst.contains value).map remove

end SetEdit

end SourceHistory
