import SourceHistory.Node.Check

namespace SourceHistory

structure VarOutline where
  name : String
  modifiers : NameSet
  initializer : List String

structure FunctionOutline where
  signature : String
  modifiers : NameSet
  parameters : List VarOutline
  body : List String

/-- A type with its members, a function, or a variable. -/
inductive EntityOutline where
  | type (name : String) (modifiers supertypes : NameSet) (members : List EntityOutline)
  | function (outline : FunctionOutline)
  | var (outline : VarOutline)

structure UnitOutline where
  path : String
  entities : List EntityOutline

def VarOutline.build (parent : String) (o : VarOutline) : Except Error Node :=
  Node.var (Id.child parent o.name) o.modifiers o.initializer

def FunctionOutline.build (parent : String) (o : FunctionOutline) : Except Error Node := do
  let id := Id.child parent o.signature
  let parameters ← o.parameters.mapM (VarOutline.build id)
  Node.function id o.modifiers parameters o.body

namespace EntityOutline

mutual

def build (parent : String) : EntityOutline → Except Error Node
  | type name modifiers supertypes members => do
    let id := Id.child parent name
    let members ← buildList id members
    Node.type id modifiers supertypes members
  | function outline => outline.build parent
  | var outline => outline.build parent

def buildList (parent : String) : List EntityOutline → Except Error (List Node)
  | [] => .ok []
  | outline :: rest => do
    let entity ← build parent outline
    let entities ← buildList parent rest
    return entity :: entities

end

end EntityOutline

/-- Derives every id from the enclosing node, children first, and runs the constructors with all
their checks. -/
def UnitOutline.build (o : UnitOutline) : Except Error SourceUnit := do
  let entities ← EntityOutline.buildList o.path o.entities
  SourceUnit.make o.path entities

end SourceHistory
