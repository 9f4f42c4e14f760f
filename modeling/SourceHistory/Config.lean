import SourceHistory.Error
import SourceHistory.Text.Utf8
import SourceHistory.Toml.Reader

namespace SourceHistory

structure HistoryConfig where
  emitEmptyTransactions : Bool := true
  deriving DecidableEq

structure GitConfig where
  binary : String := "git"
  timeoutSeconds : Nat := 60
  deriving DecidableEq

/-- What a configuration does not say has a default, and unknown keys do not matter. -/
structure Config where
  history : HistoryConfig := {}
  git : GitConfig := {}
  deriving DecidableEq

namespace Config

open Toml

def fileName : String := "tuglens.toml"

/-- The fields of a table, from a table or from an array. A date has none. -/
def fieldsOf (names : List String) : Value → Option Entries
  | .table _ entries => some entries
  | .array items => some (names.zip items)
  | .tables items => some (names.zip (items.map (Value.table .header)))
  | .datetime => some []
  | _ => none

def field {α : Type} (entries : Entries) (name : String) (default : α)
    (read : Value → Option α) : Option α :=
  match entries.find? name with
  | some value => read value
  | none => some default

def readBool : Value → Option Bool
  | .boolean value => some value
  | _ => none

def readString : Value → Option String
  | .string text => some text
  | _ => none

def readNat : Value → Option Nat
  | .integer value => if 0 ≤ value then some value.toNat else none
  | _ => none

def readHistory (v : Value) : Option HistoryConfig := do
  let entries ← fieldsOf ["emit_empty_transactions"] v
  return ⟨← field entries "emit_empty_transactions" true readBool⟩

def readGit (v : Value) : Option GitConfig := do
  let entries ← fieldsOf ["binary", "timeout_secs"] v
  return ⟨← field entries "binary" "git" readString, ← field entries "timeout_secs" 60 readNat⟩

def parse? (text : String) : Option Config := do
  let entries ← Toml.parse? text
  return ⟨← field entries "history" {} readHistory, ← field entries "git" {} readGit⟩

/-- The configuration of a text that comes from no file. -/
def ofText (text : String) : Except Error Config :=
  match parse? text with
  | some config => .ok config
  | none => .error (.config "<string>" "failed to parse config")

/-- The configuration of the file at `path` with this content, or without any if there is none. -/
def load (path : String) (content : Option (List UInt8)) : Except Error Config :=
  match content.map Text.decodeUtf8 with
  | some (.ok text) =>
    match parse? text with
    | some config => .ok config
    | none => .error (.config path "failed to parse config file")
  | _ => .error (.config path "failed to read config file")

def loadFromRoot (content : Option (List UInt8)) : Except Error Config :=
  match content with
  | some bytes => load fileName (some bytes)
  | none => .ok {}

end Config

end SourceHistory
