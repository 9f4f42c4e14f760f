import SourceHistory.Error

namespace SourceHistory

/-- One change of a list; an index refers to the list at that moment. -/
inductive ListEdit (α : Type) where
  | add (index : Nat) (value : α)
  | remove (index : Nat)
  | replace (index : Nat) (value : α)
  deriving DecidableEq, Repr

namespace ListEdit

variable {α : Type}

def index : ListEdit α → Nat
  | add index _ => index
  | remove index => index
  | replace index _ => index

def applyTo (list : List α) : ListEdit α → Except Error (List α)
  | add index value =>
    if index ≤ list.length then .ok (list.insertIdx index value)
    else .error (.indexOutOfBounds index list.length)
  | remove index =>
    if index < list.length then .ok (list.eraseIdx index)
    else .error (.indexOutOfBounds index list.length)
  | replace index value =>
    if index < list.length then .ok (list.set index value)
    else .error (.indexOutOfBounds index list.length)

def apply (list : List α) (edits : List (ListEdit α)) : Except Error (List α) :=
  edits.foldlM applyTo list

structure Script (α : Type) where
  cost : Nat
  edits : List (ListEdit α)

def Script.cons (edit : ListEdit α) (script : Script α) : Script α :=
  ⟨script.cost + 1, edit :: script.edits⟩

/-- The script from a source of `size` elements with the last element `x` to a target with the last
element `y`. It continues the script for the source without `x` (`removed`), for both without their
last element (`kept`), or for the target without `y` (`inserted`). -/
def Script.best [DecidableEq α] (size : Nat) (x y : α) (removed kept inserted : Script α) :
    Script α :=
  if x = y then kept
  else if removed.cost ≤ inserted.cost then removed.cons (.remove (size - 1))
  else inserted.cons (.add size y)

/-- The scripts from the empty list to a reversed target and to each of its tails. -/
def insertionRow : (target : List α) → List (Script α)
  | [] => [⟨0, []⟩]
  | y :: ys =>
    match insertionRow ys with
    | [] => []
    | script :: row => script.cons (.add 0 y) :: script :: row

/-- The scripts from a reversed source `x :: _` of `size` elements to a reversed target and to each
of its tails, from the row `above` for the source without `x`. -/
def nextRow [DecidableEq α] (size : Nat) (x : α) :
    (target : List α) → (above : List (Script α)) → List (Script α)
  | y :: ys, removed :: kept :: above =>
    match nextRow size x ys (kept :: above) with
    | [] => []
    | inserted :: row => Script.best size x y removed kept inserted :: inserted :: row
  | _, removed :: _ => [removed.cons (.remove (size - 1))]
  | _, [] => []

def scriptRow [DecidableEq α] : (source target : List α) → List (Script α)
  | [], target => insertionRow target
  | x :: xs, target => nextRow (xs.length + 1) x target (scriptRow xs target)

/-- A shortest script of insertions and removals that turns `src` into `dst`. It works from the ends
of both lists towards their start, so each edit names its place in the list as it is then. -/
def diff [DecidableEq α] (src dst : List α) : List (ListEdit α) :=
  match scriptRow src.reverse dst.reverse with
  | script :: _ => script.edits
  | [] => []

end ListEdit

end SourceHistory
