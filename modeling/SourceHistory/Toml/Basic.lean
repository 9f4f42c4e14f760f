namespace SourceHistory.Toml

/-- Where a table comes from, which decides whether a later part of the document may extend it. -/
inductive Origin where
  /-- A header names it. -/
  | header
  /-- A longer header implies it. -/
  | implied
  /-- A dotted key implies it. -/
  | dotted
  | inlined
  deriving DecidableEq, Repr

/-- Floats and dates are checked for their form and not kept. -/
inductive Value where
  | string (text : String)
  | integer (value : Int)
  | boolean (value : Bool)
  | float
  | datetime
  | array (items : List Value)
  | table (origin : Origin) (entries : List (String × Value))
  /-- The tables of an array of tables, oldest first. -/
  | tables (items : List (List (String × Value)))

abbrev Entries := List (String × Value)

def Entries.find? (entries : Entries) (key : String) : Option Value := entries.lookup key

def Entries.set (key : String) (value : Value) : Entries → Entries
  | [] => [(key, value)]
  | (k, v) :: rest => if k = key then (key, value) :: rest else (k, v) :: Entries.set key value rest

def Entries.remove (key : String) (entries : Entries) : Entries :=
  entries.filter fun entry => entry.1 ≠ key

/-- Whether a path of dotted keys (`byDots`) or of a header may go through a table. -/
def Origin.isOpen (byDots : Bool) : Origin → Bool
  | .header => !byDots
  | .implied => true
  | .dotted => true
  | .inlined => false

variable {α : Type}

/-- Changes the table at `path`, making the tables on the way that are missing. An array of tables
stands for its last table. Fails where something else is in the way. -/
def modifyAt (byDots : Bool) (change : Origin → Entries → Option (α × Entries)) :
    (path : List String) → Origin → Entries → Option (α × Entries)
  | [], origin, entries => change origin entries
  | key :: path, _, entries =>
    match entries.find? key with
    | none => do
      let origin := if byDots then Origin.dotted else Origin.implied
      let (result, inner) ← modifyAt byDots change path origin []
      return (result, entries.set key (.table origin inner))
    | some (.table origin inner) =>
      if origin.isOpen byDots then do
        let (result, inner) ← modifyAt byDots change path origin inner
        return (result, entries.set key (.table origin inner))
      else none
    | some (.tables items) =>
      match items.getLast? with
      | none => none
      | some last => do
        let (result, last) ← modifyAt byDots change path .header last
        return (result, entries.set key (.tables (items.dropLast ++ [last])))
    | some _ => none

/-- Adds a value under a dotted key, whose last part must be new. Tables that are not themselves
made by dotted keys take no values through them. -/
def insertDotted (path : List String) (key : String) (value : Value) (origin : Origin)
    (entries : Entries) : Option Entries :=
  (modifyAt true add path origin entries).map Prod.snd
where
  add (origin : Origin) (entries : Entries) : Option (Unit × Entries) :=
    if decide (origin = .dotted) = path.isEmpty then none
    else if (entries.find? key).isSome then none
    else some ((), entries.set key value)

end SourceHistory.Toml
