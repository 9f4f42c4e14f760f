import SourceHistory.Node.Basic

namespace SourceHistory

def checkId (kind : Kind) (id : String) : Except Error Unit :=
  if kind.isValidId id then .ok () else .error (.invalidId kind id)

/-- Refuses ids that are not directly below `parent` and ids that occur again; `seen` came
before. -/
def checkChildren (parent : String) (seen : List String) : List String → Except Error Unit
  | [] => .ok ()
  | child :: rest =>
    if Id.parent? child ≠ some parent then
      .error (.invalidArgument (.notDirectChild child parent))
    else if child ∈ seen then .error (.duplicateId parent child)
    else checkChildren parent (child :: seen) rest

def isAscending : List String → Bool
  | [] => true
  | [_] => true
  | a :: b :: rest => a < b && isAscending (b :: rest)

namespace Kind

def childNoun : Kind → String
  | unit => "entities"
  | _ => "members"

end Kind

namespace Node

def checkKinds (n : Node) : List Node → Except Error Unit
  | [] => .ok ()
  | child :: rest =>
    if n.kind.canContain child.kind then checkKinds n rest
    else .error (.invalidParent child.id n.id n.kind child.kind)

def checkOrder (n : Node) : Except Error Unit :=
  if n.kind.isSorted && !isAscending n.childIds then
    .error (.invalidArgument (.unsortedChildren n.kind.childNoun n.id))
  else .ok ()

/-- Checks one level of a node: the children that it takes were checked when they were built. -/
def checkShallow (n : Node) : Except Error Unit := do
  checkId n.kind n.id
  checkChildren n.id [] n.childIds
  checkOrder n
  checkKinds n n.children

mutual

def validate : Node → Except Error Unit
  | ⟨id, attributes, children⟩ => do
    checkShallow ⟨id, attributes, children⟩
    validateList children

def validateList : List Node → Except Error Unit
  | [] => .ok ()
  | n :: ns => do
    validate n
    validateList ns

end

/-- Nodes in ascending order of their ids; nodes with one id keep their order. -/
def sortById (nodes : List Node) : List Node := nodes.mergeSort fun a b => a.id ≤ b.id

/-- Sorts what has to be sorted, and checks the result. -/
def make (id : String) (attributes : Attributes) (children : List Node) : Except Error Node := do
  let node : Node :=
    ⟨id, attributes, if attributes.kind.isSorted then sortById children else children⟩
  checkShallow node
  return node

/-- A type; its members may be given in any order. -/
def type (id : String) (modifiers supertypes : NameSet) (members : List Node) :
    Except Error Node :=
  make id (.type modifiers supertypes) members

def function (id : String) (modifiers : NameSet) (parameters : List Node) (body : List String) :
    Except Error Node :=
  make id (.function modifiers body) parameters

def var (id : String) (modifiers : NameSet) (initializer : List String) : Except Error Node :=
  make id (.var modifiers initializer) []

end Node

namespace SourceUnit

def make (path : String) (entities : List Node) : Except Error SourceUnit := do
  let node ← Node.make path .unit entities
  return ⟨node.id, node.children⟩

def empty (path : String) : Except Error SourceUnit := make path []

def validate (u : SourceUnit) : Except Error Unit := u.toNode.validate

end SourceUnit

end SourceHistory
