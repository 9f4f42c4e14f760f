import SourceHistory.Collections
import SourceHistory.Error
import SourceHistory.Id

namespace SourceHistory

inductive Attributes where
  | unit
  | type (modifiers supertypes : NameSet)
  | function (modifiers : NameSet) (body : List String)
  | var (modifiers : NameSet) (initializer : List String)
  deriving DecidableEq

def Attributes.kind : Attributes → Kind
  | unit => .unit
  | type .. => .type
  | function .. => .function
  | var .. => .var

/-- A node with its whole subtree. Units and types keep their children sorted by id, so that nodes
with the same content are equal; the children of a function are its parameters as declared. -/
structure Node where
  id : String
  attributes : Attributes
  children : List Node

namespace Node

mutual

def decEq : (a b : Node) → Decidable (a = b)
  | ⟨id, attributes, children⟩, ⟨id', attributes', children'⟩ =>
    if h : id = id' ∧ attributes = attributes' then
      match decEqList children children' with
      | isTrue hc => isTrue (by rw [h.1, h.2, hc])
      | isFalse hc => isFalse (by intro he; cases he; exact hc rfl)
    else isFalse (by intro he; cases he; exact h ⟨rfl, rfl⟩)

def decEqList : (as bs : List Node) → Decidable (as = bs)
  | [], [] => isTrue rfl
  | [], _ :: _ => isFalse (by simp)
  | _ :: _, [] => isFalse (by simp)
  | a :: as, b :: bs =>
    match decEq a b, decEqList as bs with
    | isTrue h, isTrue hs => isTrue (by rw [h, hs])
    | isFalse h, _ => isFalse (by intro he; cases he; exact h rfl)
    | _, isFalse hs => isFalse (by intro he; cases he; exact hs rfl)

end

instance : DecidableEq Node := decEq

def kind (n : Node) : Kind := n.attributes.kind

def name (n : Node) : String := Id.simpleName n.id

def childIds (n : Node) : List String := n.children.map id

def childNames (n : Node) : List String := n.children.map name

mutual

/-- A node and all nodes below it, each before its children. -/
def preorder : Node → List Node
  | ⟨id, attributes, children⟩ => ⟨id, attributes, children⟩ :: preorderList children

def preorderList : List Node → List Node
  | [] => []
  | n :: ns => preorder n ++ preorderList ns

end

def cast (expected : Kind) (n : Node) : Except Error Node :=
  if n.kind = expected then .ok n else .error (.wrongKind n.id expected n.kind)

end Node

structure SourceUnit where
  path : String
  entities : List Node
  deriving DecidableEq

namespace SourceUnit

def toNode (u : SourceUnit) : Node := ⟨u.path, .unit, u.entities⟩

def ofNode? : Node → Option SourceUnit
  | ⟨path, .unit, entities⟩ => some ⟨path, entities⟩
  | _ => none

@[simp]
theorem ofNode?_toNode (u : SourceUnit) : ofNode? u.toNode = some u := rfl

theorem eq_toNode_of_ofNode? {n : Node} {u : SourceUnit} (h : ofNode? n = some u) :
    n = u.toNode := by
  obtain ⟨id, attributes, children⟩ := n
  cases attributes <;> simp_all [ofNode?, toNode]
  exact ⟨by rw [← h], by rw [← h]⟩

end SourceUnit

end SourceHistory
