import SourceHistory.Node.Child

namespace SourceHistory

/-- A flat map from ids to nodes. Every entry holds its subtree by value, so an index can also be
inconsistent, with entries whose parent is missing or holds an old copy of them. -/
abbrev NodeIndex := NameMap Node

namespace NodeIndex

def getAs (index : NodeIndex) (expected : Kind) (id : String) : Except Error Node :=
  match index[id]? with
  | some n => n.cast expected
  | none => .error (.nodeNotFound id)

def replace (index : NodeIndex) (n : Node) : NodeIndex := index.insert n.id n

/-- Stores `n` and every node below it, in place of what was there. -/
def insertSubtree (index : NodeIndex) (n : Node) : NodeIndex := n.preorder.foldl replace index

def ofUnits (units : List SourceUnit) : NodeIndex :=
  units.foldl (fun index unit => insertSubtree index unit.toNode) ∅

theorem size_erase_lt {index : NodeIndex} {id : String} {n : Node} (h : index[id]? = some n) :
    (index.erase id).size < index.size := by
  have hmem : id ∈ index := Std.ExtTreeMap.mem_iff_isSome_getElem?.2 (by rw [h]; rfl)
  have hpos : index.size ≠ 0 := fun h0 => by
    rw [Std.ExtTreeMap.eq_empty_iff_size_eq_zero.2 h0] at hmem
    exact Std.ExtTreeMap.not_mem_empty hmem
  rw [Std.ExtTreeMap.size_erase, if_pos (Std.ExtTreeMap.contains_iff_mem.2 hmem)]
  omega

/-- Removes the nodes `pending` and whatever the removed entries list as their children. -/
def eraseAll (index : NodeIndex) : (pending : List String) → NodeIndex
  | [] => index
  | id :: pending =>
    match _h : index[id]? with
    | none => eraseAll index pending
    | some n => eraseAll (index.erase id) (n.childIds ++ pending)
termination_by pending => (index.size, pending.length)
decreasing_by
  · exact Prod.Lex.right _ (by simp)
  · exact Prod.Lex.left _ _ (size_erase_lt _h)

def eraseSubtree (index : NodeIndex) (id : String) : NodeIndex := eraseAll index [id]

def takeSubtree (index : NodeIndex) (id : String) : Option Node × NodeIndex :=
  (index[id]?, eraseSubtree index id)

/-- The next node of a walk that still has to visit `pending`, and what is pending after it. Ids
without an entry are passed over; the children of a node come before all that was pending. -/
def next? (index : NodeIndex) : (pending : List String) → Option (Node × List String)
  | [] => none
  | id :: pending =>
    match index[id]? with
    | some n => some (n, n.childIds ++ pending)
    | none => next? index pending

def visit (index : NodeIndex) : (limit : Nat) → (pending : List String) → List Node
  | 0, _ => []
  | limit + 1, pending =>
    match next? index pending with
    | some (n, pending) => n :: visit index limit pending
    | none => []

/-- The nodes that a walk from `roots` visits, parents first. No id comes up twice, so a walk has at
most as many nodes as the index. -/
def walkAll (index : NodeIndex) (roots : List String) : List Node := visit index index.size roots

def walk (index : NodeIndex) (id : String) : Except Error (List Node) :=
  if index.contains id then .ok (walkAll index [id]) else .error (.nodeNotFound id)

end NodeIndex

end SourceHistory
