namespace SourceHistory

/-- What a node is. Fields, constants and parameters are variables. -/
inductive Kind where
  | unit
  | type
  | function
  | var
  deriving DecidableEq, Repr

namespace Kind

def name : Kind → String
  | unit => "unit"
  | type => "type"
  | function => "function"
  | var => "variable"

def canContain : Kind → Kind → Bool
  | unit, child => child ≠ unit
  | type, child => child ≠ unit
  | function, child => child = var
  | var, _ => false

/-- Whether nodes of this kind keep their children sorted by id. -/
def isSorted : Kind → Bool
  | unit => true
  | type => true
  | function => false
  | var => false

end Kind

end SourceHistory
