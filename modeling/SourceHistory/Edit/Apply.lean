import SourceHistory.Attempt
import SourceHistory.Edit.Basic
import SourceHistory.NodeIndex

namespace SourceHistory

namespace NodeIndex

def checkChain (index : NodeIndex) (id : String) : (ancestors : List String) → Except Error Unit
  | [] => .ok ()
  | parent :: rest =>
    if index.contains parent then checkChain index parent rest
    else .error (.parentNotFound id parent)

def checkAncestors (index : NodeIndex) (id : String) : Except Error Unit :=
  checkChain index id (Id.ancestors id)

/-- Rebuilds `ancestors`, which start with the parent of `id`, each from the entry below it. -/
def rebuildChain (index : NodeIndex) (id : String) : (ancestors : List String) → Attempt NodeIndex
  | [] => .done index
  | parent :: rest =>
    match index[parent]? with
    | none => .failed index (.parentNotFound id parent)
    | some node =>
      match node.setChild id index[id]? with
      | .error error => .failed index error
      | .ok node => rebuildChain (index.insert parent node) parent rest

def rebuildAncestors (index : NodeIndex) (id : String) : Attempt NodeIndex :=
  rebuildChain index id (Id.ancestors id)

end NodeIndex

namespace Edit

open NodeIndex

/-- Refuses a parent that is missing, of the wrong kind, or without its own ancestors. -/
def checkParent (index : NodeIndex) (node : Node) : Except Error Unit :=
  match Id.parent? node.id with
  | none => .ok ()
  | some parentId =>
    match index[parentId]? with
    | none => .error (.parentNotFound node.id parentId)
    | some parent =>
      if parent.kind.canContain node.kind then checkAncestors index parentId
      else .error (.invalidParent node.id parentId parent.kind node.kind)

/-- The variables that `names` stand for below `function`, each at most once; `seen` were used. -/
def resolveNames (index : NodeIndex) (function : String) (seen : List String) :
    (names : List String) → Except Error (List Node)
  | [] => .ok []
  | name :: names =>
    match (index[Id.child function name]?).filter fun node => node.kind = .var with
    | none => .error (.unresolvedParameter function name)
    | some parameter =>
      if name ∈ seen then .error (.parameterMismatch function (.listedTwice name))
      else do
        let parameters ← resolveNames index function (name :: seen) names
        return parameter :: parameters

/-- The parameters of `function` in the order of the edited names; all of them must be there. -/
def resolveParameters (index : NodeIndex) (function : Node) (edits : List (ListEdit String)) :
    Except Error (List Node) := do
  let names ← ListEdit.apply function.childNames edits
  let parameters ← resolveNames index function.id [] names
  if parameters.length = function.children.length then .ok parameters
  else
    .error (.parameterMismatch function.id
      (.wrongCount function.children.length parameters.length))

def revise (index : NodeIndex) (node : Node) : Edit → Except Error Node
  | editType _ modifierEdits supertypeEdits =>
    match node.attributes with
    | .type modifiers supertypes => do
      let modifiers ← SetEdit.apply modifiers modifierEdits
      let supertypes ← SetEdit.apply supertypes supertypeEdits
      return { node with attributes := .type modifiers supertypes }
    | _ => .error (.wrongKind node.id .type node.kind)
  | editFunction _ modifierEdits parameterEdits bodyEdits =>
    match node.attributes with
    | .function modifiers body => do
      let modifiers ← SetEdit.apply modifiers modifierEdits
      let parameters ← resolveParameters index node parameterEdits
      let body ← ListEdit.apply body bodyEdits
      return { node with attributes := .function modifiers body, children := parameters }
    | _ => .error (.wrongKind node.id .function node.kind)
  | editVar _ modifierEdits initializerEdits =>
    match node.attributes with
    | .var modifiers initializer => do
      let modifiers ← SetEdit.apply modifiers modifierEdits
      let initializer ← ListEdit.apply initializer initializerEdits
      return { node with attributes := .var modifiers initializer }
    | _ => .error (.wrongKind node.id .var node.kind)
  | addNode _ => .ok node
  | removeNode _ => .ok node

/-- The index after the entry of the node itself was written; nothing is written on an error. -/
def stage (index : NodeIndex) : Edit → Except Error NodeIndex
  | addNode node => do
    if index.contains node.id then throw (.nodeExists node.id)
    checkParent index node
    return insertSubtree index node
  | removeNode id => do
    unless index.contains id do throw (.nodeNotFound id)
    checkAncestors index id
    return eraseSubtree index id
  | edit =>
    match index[edit.id]? with
    | none => .error (.nodeNotFound edit.id)
    | some node => do
      let revised ← revise index node edit
      checkAncestors index edit.id
      return replace index revised

/-- All checks run first, then the entry of the node is written, and then its ancestors are rebuilt
from the bottom up. Where every parent may hold its children the last part cannot fail. On other
indexes it can, and then what was written so far stays. -/
def applyTo (index : NodeIndex) (e : Edit) : Attempt NodeIndex :=
  match stage index e with
  | .error error => .failed index error
  | .ok staged => rebuildAncestors staged e.id

end Edit

end SourceHistory
