import SourceHistory.Node.Check

namespace SourceHistory.Node

/-- Puts `child?` in the place of the node `id` among nodes that ascend by id. -/
def setMember (id : String) (child? : Option Node) : List Node → List Node
  | [] => child?.toList
  | n :: ns =>
    if n.id < id then n :: setMember id child? ns
    else if n.id = id then child?.toList ++ ns
    else child?.toList ++ n :: ns

/-- Puts `child?` in the place of the node `id`, or at the end. -/
def setParameter (id : String) (child? : Option Node) : List Node → List Node
  | [] => child?.toList
  | n :: ns => if n.id = id then child?.toList ++ ns else n :: setParameter id child? ns

def updatedChildren (n : Node) (id : String) (child? : Option Node) : List Node :=
  match n.kind with
  | .unit => setMember id child? n.children
  | .type => setMember id child? n.children
  | .function => setParameter id child? n.children
  | .var => n.children

/-- Exchanges the stale copy of a child for its current version, or drops it if there is none;
refused if a node of this kind cannot hold it. -/
def setChild (n : Node) (id : String) (child? : Option Node) : Except Error Node :=
  match child? with
  | some child =>
    if n.kind.canContain child.kind then
      .ok { n with children := n.updatedChildren id (some child) }
    else .error (.invalidParent child.id n.id n.kind child.kind)
  | none => .ok { n with children := n.updatedChildren id none }

end SourceHistory.Node
