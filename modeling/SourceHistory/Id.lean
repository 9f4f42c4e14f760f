import SourceHistory.Kind
import SourceHistory.Text.Blank
import SourceHistory.Text.Cut

namespace SourceHistory.Id

open Text

/-- An id is the path of a unit and one segment for each entity around and at the node, as in
`src/Main.java:Main:getVersion(String):name`. -/
def separator : Char := ':'

/-- A relative path: no blank and no separator in it, and no component that is empty, `.` or
`..`. -/
def isPath (s : List Char) : Bool :=
  s.all (fun c => c ≠ separator ∧ ¬ isBlank c) &&
    (pieces '/' s).all fun part => part ≠ [] ∧ part ≠ ['.'] ∧ part ≠ ['.', '.']

def isNameChar (c : Char) : Bool :=
  c ≠ separator ∧ c ≠ '(' ∧ c ≠ ')' ∧ c ≠ '/' ∧ ¬ isBlank c

def isName (s : List Char) : Bool := !s.isEmpty && s.all isNameChar

/-- A signature: a name and one pair of parentheses around text without separators and
parentheses. -/
def isSignature (s : List Char) : Bool :=
  match cutFirst? '(' s with
  | none => false
  | some (name, rest) =>
    match cutFirst? ')' rest with
    | some (inner, []) => isName name && inner.all fun c => c ≠ separator ∧ c ≠ '('
    | _ => false

/-- The path and the entity segments of an id whose path is valid. -/
def segments? (id : String) : Option (List (List Char)) :=
  match pieces separator id.toList with
  | [] => none
  | path :: entities => if isPath path then some entities else none

def isValidPath (path : String) : Bool := isPath path.toList

def isValidName (name : String) : Bool := isName name.toList

def isValidSignature (signature : String) : Bool := isSignature signature.toList

def isValidType (id : String) : Bool :=
  match segments? id with
  | some entities => !entities.isEmpty && entities.all isName
  | none => false

def isValidFunction (id : String) : Bool :=
  match (segments? id).map List.reverse with
  | some (last :: containers) => isSignature last && containers.all isName
  | _ => false

/-- Variables live in units, in types, and in functions as parameters. -/
def isValidVar (id : String) : Bool :=
  match (segments? id).map List.reverse with
  | some (last :: owner :: outer) =>
    isName last && (isName owner || isSignature owner) && outer.all isName
  | some [last] => isName last
  | _ => false

def isValidEntity (id : String) : Bool := isValidType id || isValidFunction id || isValidVar id

def isValidNode (id : String) : Bool := isValidPath id || isValidEntity id

def child (parent name : String) : String :=
  String.ofList (parent.toList ++ separator :: name.toList)

/-- The id of the node around `id`, or `none` for a unit. -/
def parent? (id : String) : Option String :=
  (cutLast? separator id.toList).map fun (parent, _) => String.ofList parent

/-- The last segment of `id`, which for a unit is the whole path. -/
def simpleName (id : String) : String :=
  match cutLast? separator id.toList with
  | some (_, name) => String.ofList name
  | none => id

def sourcePath (id : String) : String :=
  match cutFirst? separator id.toList with
  | some (path, _) => String.ofList path
  | none => id

theorem length_of_cutLast? {sep : Char} {s before after : List Char}
    (h : cutLast? sep s = some (before, after)) : before.length < s.length := by
  induction s generalizing before with
  | nil => simp [cutLast?] at h
  | cons c cs ih =>
    rw [cutLast?] at h
    split at h
    · next before' after' hcut =>
      obtain ⟨rfl, rfl⟩ := Prod.mk.inj (Option.some.inj h)
      have := ih hcut
      simp only [List.length_cons]
      omega
    · split at h
      · obtain ⟨rfl, rfl⟩ := Prod.mk.inj (Option.some.inj h)
        simp
      · exact absurd h (by simp)

theorem length_parent?_lt {id parent : String} (h : parent? id = some parent) :
    parent.toList.length < id.toList.length := by
  obtain ⟨⟨before, after⟩, hcut, rfl⟩ := Option.map_eq_some_iff.1 h
  simpa using length_of_cutLast? hcut

/-- The proper ancestors of `id`, from its parent to its unit. -/
def ancestors (id : String) : List String :=
  match _h : parent? id with
  | none => []
  | some parent => parent :: ancestors parent
termination_by id.toList.length
decreasing_by exact length_parent?_lt _h

/-- The order in which a parent comes before its children: by size in bytes, then by text. -/
def parentsFirst (a b : String) : Bool :=
  a.utf8ByteSize < b.utf8ByteSize || (a.utf8ByteSize = b.utf8ByteSize && a ≤ b)

def childrenFirst (a b : String) : Bool :=
  b.utf8ByteSize < a.utf8ByteSize || (a.utf8ByteSize = b.utf8ByteSize && a ≤ b)

end SourceHistory.Id

namespace SourceHistory

def Kind.isValidId : Kind → String → Bool
  | .unit => Id.isValidPath
  | .type => Id.isValidType
  | .function => Id.isValidFunction
  | .var => Id.isValidVar

end SourceHistory
