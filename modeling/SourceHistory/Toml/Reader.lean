import SourceHistory.Toml.Scan

namespace SourceHistory.Toml

def arraySpace : (fuel : Nat) → Scan Unit
  | 0 => failure
  | fuel + 1 => do
    blanks
    (do comment <|> pure (); newline; arraySpace fuel) <|> pure ()

mutual

/-- A value, inside `depth` arrays and inline tables. `fuel` bounds the recursion: every step takes
at least one character. -/
def value : (fuel : Nat) → (depth : Nat) → Scan Value
  | 0, _ => failure
  | fuel + 1, depth => do
    match (← get).head? with
    | some '[' =>
      char '['
      if depthLimit ≤ depth + 1 then failure
      arraySpace fuel
      return .array (← arrayItems fuel (depth + 1))
    | some '\x7b' =>
      char '\x7b'
      if depthLimit ≤ depth + 1 then failure
      blanks
      (do char '\x7d'; return .table .inlined []) <|> do
        return .table .inlined (← inlineEntries fuel (depth + 1) [])
    | some '"' => return .string (← string)
    | some '\'' => return .string (← string)
    | _ =>
      (do datetime; return .datetime) <|> (do float; return .float) <|>
        (return .integer (← integer)) <|>
        (do word ['t', 'r', 'u', 'e']; return .boolean true) <|>
        (do word ['f', 'a', 'l', 's', 'e']; return .boolean false)

/-- The items of an array up to its end; a comma may follow the last one. -/
def arrayItems : (fuel : Nat) → (depth : Nat) → Scan (List Value)
  | 0, _ => failure
  | fuel + 1, depth => do
    match (← get).head? with
    | some ']' =>
      char ']'
      return []
    | _ =>
      let item ← value fuel depth
      arraySpace fuel
      (do char ']'; return [item]) <|> do
        char ','
        arraySpace fuel
        return item :: (← arrayItems fuel depth)

def inlineEntries : (fuel : Nat) → (depth : Nat) → Entries → Scan Entries
  | 0, _, _ => failure
  | fuel + 1, depth, entries => do
    let path ← key
    char '='
    blanks
    let item ← value fuel depth
    blanks
    match insertDotted path.dropLast (path.getLast?.getD "") item .inlined entries with
    | none => failure
    | some entries =>
      (do char '\x7d'; return entries) <|> do
        char ','
        inlineEntries fuel depth entries

end

/-- A document that is read so far: the finished part, and the table of the last header with its
path. -/
structure Draft where
  root : Entries := []
  path : List String := []
  isArray : Bool := false
  current : Entries := []

namespace Draft

def finish (d : Draft) : Option Entries :=
  match d.path.getLast? with
  | none => some d.current
  | some key => (modifyAt false (join key) d.path.dropLast .header d.root).map Prod.snd
where
  join (key : String) (_ : Origin) (entries : Entries) : Option (Unit × Entries) :=
    match entries.find? key, d.isArray with
    | none, true => some ((), entries.set key (.tables [d.current]))
    | some (.tables items), true => some ((), entries.set key (.tables (items ++ [d.current])))
    | none, false => some ((), entries.set key (.table .header d.current))
    | _, _ => none

/-- Starts the table of a header. A table that longer headers implied keeps what it has. -/
def startTable (d : Draft) (path : List String) : Option Draft := do
  let root ← d.finish
  let key ← path.getLast?
  let (current, root) ← modifyAt false (take key) path.dropLast .header root
  return { root, path, isArray := false, current }
where
  /-- Takes an implied table out of `entries`. -/
  take (key : String) (_ : Origin) (entries : Entries) : Option (Entries × Entries) :=
    match entries.find? key with
    | none => some ([], entries)
    | some (.table .implied inner) => some (inner, entries.remove key)
    | some _ => none

def startArrayTable (d : Draft) (path : List String) : Option Draft := do
  let root ← d.finish
  let key ← path.getLast?
  let ((), root) ← modifyAt false (reserve key) path.dropLast .header root
  return { root, path, isArray := true, current := [] }
where
  reserve (key : String) (_ : Origin) (entries : Entries) : Option (Unit × Entries) :=
    match entries.find? key with
    | none => some ((), entries)
    | some (.tables _) => some ((), entries)
    | some _ => none

def insert (d : Draft) (path : List String) (value : Value) : Option Draft := do
  let current ←
    insertDotted path.dropLast (path.getLast?.getD "") value .header d.current
  return { d with current }

end Draft

def header (d : Draft) : Scan Draft :=
  (do
    word ['[', '[']
    let path ← key
    word [']', ']']
    lineRest
    StateT.lift (d.startArrayTable path)) <|> do
    char '['
    let path ← key
    char ']'
    lineRest
    StateT.lift (d.startTable path)

def keyValue (d : Draft) : Scan Draft := do
  let path ← key
  char '='
  blanks
  let item ← fun s => value (2 * s.length + 2) 0 s
  lineRest
  StateT.lift (d.insert path item)

def lines : (fuel : Nat) → Draft → Scan Draft
  | 0, _ => failure
  | fuel + 1, d => do
    blanks
    match (← get).head? with
    | none => return d
    | some '#' => lineRest; lines fuel d
    | some '\n' => newline; lines fuel d
    | some '\r' => newline; lines fuel d
    | some '[' => lines fuel (← header d)
    | some _ => lines fuel (← keyValue d)

/-- The entries of a document. A byte order mark at its start does not count. -/
def parse? (text : String) : Option Entries := do
  let s :=
    match text.toList with
    | '\ufeff' :: s => s
    | s => s
  let (draft, _) ← lines (s.length + 1) {} s
  draft.finish

end SourceHistory.Toml
