import SourceHistory.Edit.Apply

namespace SourceHistory

/-- The units of a project by path, and the index of all their nodes. -/
structure Snapshot where
  units : NameMap SourceUnit
  index : NodeIndex

namespace Snapshot

def empty : Snapshot := ⟨∅, ∅⟩

/-- The map of valid units with different paths, on top of `map`. -/
def collect (map : NameMap SourceUnit) : List SourceUnit → Except Error (NameMap SourceUnit)
  | [] => .ok map
  | unit :: units => do
    unit.validate
    if map.contains unit.path then throw (.duplicateUnit unit.path)
    collect (map.insert unit.path unit) units

def ofUnits (units : List SourceUnit) : Except Error Snapshot := do
  let map ← collect ∅ units
  return ⟨map, NodeIndex.ofUnits map.values⟩

def unitList (s : Snapshot) : List SourceUnit := s.units.values

def walk (s : Snapshot) : List Node := NodeIndex.walkAll s.index s.units.keys

def walkFrom (s : Snapshot) (id : String) : Except Error (List Node) := NodeIndex.walk s.index id

/-- Takes the unit at `path` from the index. -/
def refreshUnit (s : Snapshot) (path : String) : Snapshot :=
  match (s.index[path]?).bind SourceUnit.ofNode? with
  | some unit => { s with units := s.units.insert path unit }
  | none => { s with units := s.units.erase path }

def apply (s : Snapshot) (e : Edit) : Attempt Snapshot :=
  let result := e.applyTo s.index
  let s := { s with index := result.state }
  match result.error? with
  | some error => .failed s error
  | none => .done (s.refreshUnit e.sourcePath)

/-- Puts back the saved version of one unit, or its absence. -/
def restoreUnit (s : Snapshot) (path : String) (saved : Option SourceUnit) : Snapshot :=
  let cleared := NodeIndex.eraseSubtree s.index path
  match saved with
  | some unit => ⟨s.units.insert path unit, NodeIndex.insertSubtree cleared unit.toNode⟩
  | none => ⟨s.units.erase path, cleared⟩

def restore (s : Snapshot) (saved : NameMap (Option SourceUnit)) : Snapshot :=
  saved.toList.foldl (fun s (path, unit) => s.restoreUnit path unit) s

/-- Applies edits until one fails; then every unit the edits touched is put back as `saved`. -/
def applySaving (saved : NameMap (Option SourceUnit)) (s : Snapshot) :
    List Edit → Attempt Snapshot
  | [] => .done s
  | e :: edits =>
    let saved := saved.insertIfNew e.sourcePath s.units[e.sourcePath]?
    let result := s.apply e
    match result.error? with
    | some error => .failed (result.state.restore saved) error
    | none => applySaving saved result.state edits

/-- Applies `edits` in order, all or none. -/
def applyAll (s : Snapshot) (edits : List Edit) : Attempt Snapshot := applySaving ∅ s edits

end Snapshot

end SourceHistory
