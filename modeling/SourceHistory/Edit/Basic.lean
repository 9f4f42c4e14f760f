import SourceHistory.ListEdit
import SourceHistory.Node.Check
import SourceHistory.SetEdit

namespace SourceHistory

inductive Edit where
  | addNode (node : Node)
  | removeNode (id : String)
  | editType (id : String) (modifiers supertypes : List (SetEdit String))
  /-- The parameter names have to stay the same up to their order: parameters come and go as nodes
  of their own. -/
  | editFunction (id : String) (modifiers : List (SetEdit String))
      (parameters body : List (ListEdit String))
  | editVar (id : String) (modifiers : List (SetEdit String)) (initializer : List (ListEdit String))
  deriving DecidableEq

namespace Edit

def id : Edit → String
  | addNode node => node.id
  | removeNode id => id
  | editType id .. => id
  | editFunction id .. => id
  | editVar id .. => id

def sourcePath (e : Edit) : String := Id.sourcePath e.id

/-- Whether an edit of attributes changes nothing; additions and removals always change
something. -/
def isEmpty : Edit → Bool
  | addNode _ => false
  | removeNode _ => false
  | editType _ modifiers supertypes => modifiers.isEmpty && supertypes.isEmpty
  | editFunction _ modifiers parameters body =>
    modifiers.isEmpty && parameters.isEmpty && body.isEmpty
  | editVar _ modifiers initializer => modifiers.isEmpty && initializer.isEmpty

def isAttributeEdit : Edit → Bool
  | addNode _ => false
  | removeNode _ => false
  | editType .. => true
  | editFunction .. => true
  | editVar .. => true

/-- Refuses an edit that no snapshot could take: the node to add must be well-formed at all levels,
and other edits need an id that fits their kind. -/
def check : Edit → Except Error Unit
  | addNode node => node.validate
  | removeNode id =>
    if Id.isValidNode id then .ok () else .error (.invalidArgument (.badNodeId id))
  | editType id .. => checkId .type id
  | editFunction id .. => checkId .function id
  | editVar id .. => checkId .var id

def make (e : Edit) : Except Error Edit := do
  check e
  return e

end Edit

end SourceHistory
