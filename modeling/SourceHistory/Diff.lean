import SourceHistory.Snapshot

namespace SourceHistory

/-- The attribute edit that turns `before` into `after`, whose children are not compared beyond the
names of parameters; `none` if there is nothing to edit. -/
def attributeEdit? (before after : Node) : Except Error (Option Edit) :=
  let edit? : Option Edit :=
    match before.attributes, after.attributes with
    | .type modifiers supertypes, .type modifiers' supertypes' =>
      some (.editType before.id (SetEdit.diff modifiers modifiers')
        (SetEdit.diff supertypes supertypes'))
    | .function modifiers body, .function modifiers' body' =>
      some (.editFunction before.id (SetEdit.diff modifiers modifiers')
        (ListEdit.diff before.childNames after.childNames) (ListEdit.diff body body'))
    | .var modifiers initializer, .var modifiers' initializer' =>
      some (.editVar before.id (SetEdit.diff modifiers modifiers')
        (ListEdit.diff initializer initializer'))
    | _, _ => none
  if before.id ≠ after.id ∨ before.kind ≠ after.kind then
    .error (.idMismatch before.id after.id)
  else
    match edit? with
    | none => .ok none
    | some edit => do
      edit.check
      return if edit.isEmpty then none else some edit

namespace NodeIndex

def advance (working : NodeIndex) (e : Edit) : Except Error NodeIndex := do
  e.check
  (e.applyTo working).toExcept

def structuralEdits (working after : NodeIndex) (id : String) : List Edit :=
  match working[id]?, after[id]? with
  | some _, none => [.removeNode id]
  | none, some target => [.addNode target]
  | some current, some target =>
    if current.kind = target.kind then [] else [.removeNode id, .addNode target]
  | none, none => []

/-- The first pass: the edits for `ids`, and the working copy after them. -/
def structuralPass (after : NodeIndex) (working : NodeIndex) :
    (ids : List String) → Except Error (List Edit × NodeIndex)
  | [] => .ok ([], working)
  | id :: ids => do
    let edits := structuralEdits working after id
    let working ← edits.foldlM advance working
    let (rest, working) ← structuralPass after working ids
    return (edits ++ rest, working)

def attributeEdits (working after : NodeIndex) (id : String) : Except Error (List Edit) :=
  match working[id]?, after[id]? with
  | some current, some target => (attributeEdit? current target).map Option.toList
  | _, _ => .ok []

/-- The second pass: the edits for `ids`, and the working copy after them. -/
def attributePass (after : NodeIndex) (working : NodeIndex) :
    (ids : List String) → Except Error (List Edit × NodeIndex)
  | [] => .ok ([], working)
  | id :: ids => do
    let edits ← attributeEdits working after id
    let working ← edits.foldlM advance working
    let (rest, working) ← attributePass after working ids
    return (edits ++ rest, working)

def unionIds (before after : NodeIndex) : List String :=
  (before.keys ++ after.keys.filter fun id => !before.contains id).mergeSort Id.parentsFirst

/-- Turns a working copy of `before` into `after` in two passes. Parents first, what the target
lacks or has as another kind is removed, and what only the target has is added; then, children
first, attributes that differ are edited. Each edit is applied to the working copy at once, so what
lies below an added or removed node needs none of its own. -/
def diff (before after : NodeIndex) : Except Error (List Edit) := do
  let (moves, working) ← structuralPass after before (unionIds before after)
  let (revisions, _) ← attributePass after working (after.keys.mergeSort Id.childrenFirst)
  return moves ++ revisions

end NodeIndex

def Snapshot.diff (before after : Snapshot) : Except Error (List Edit) :=
  NodeIndex.diff before.index after.index

def diffUnits (before after : List SourceUnit) : Except Error (List Edit) := do
  let before ← Snapshot.ofUnits before
  let after ← Snapshot.ofUnits after
  Snapshot.diff before after

/-- The edits that turn one version of a unit into another; `none` stands for no unit. -/
def diffUnit (before after : Option SourceUnit) : Except Error (List Edit) :=
  NodeIndex.diff (NodeIndex.ofUnits before.toList) (NodeIndex.ofUnits after.toList)

end SourceHistory
