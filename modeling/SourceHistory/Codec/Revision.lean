import SourceHistory.Codec.Edit
import SourceHistory.Time.Rfc3339
import SourceHistory.Transaction

namespace SourceHistory

def Revision.toJson (r : Revision) : Json :=
  .record [("id", .text r.id), ("date", .text r.date.rfc3339), ("author", .text r.author)]

def Transaction.toJson (t : Transaction) : Json :=
  .record [("revision_id", .text t.revisionId), ("date", .text t.date.rfc3339),
    ("author", .text t.author), ("edits", .array (t.edits.map Edit.toJson))]

namespace Codec

def readDate (j : Json) : Decoded Time.Instant := do
  let text ← readText j
  required (Time.Instant.parse? text)

structure RevisionFields where
  id? : Option String := none
  date? : Option Time.Instant := none
  author? : Option String := none
  edits? : Option (List Edit) := none

/-- Checks the form of the date, but neither the id nor whether the date lies before the epoch. -/
def readRevision (j : Json) : Decoded Revision := do
  let fields ← readRecord ["id", "date", "author"] ({} : RevisionFields) step j
  return ⟨← required fields.id?, ← required fields.date?, ← required fields.author?⟩
where
  step (fields : RevisionFields) (name : String) (value : Json) : Option (Decoded RevisionFields) :=
    match name with
    | "id" => some do return { fields with id? := ← once fields.id? (readText value) }
    | "date" => some do return { fields with date? := ← once fields.date? (readDate value) }
    | "author" => some do return { fields with author? := ← once fields.author? (readText value) }
    | _ => none

/-- A transaction that is a whole text: its edits stand inside the transaction and its list. -/
def readTransaction (j : Json) : Decoded Transaction := do
  let fields ← readRecord ["revision_id", "date", "author", "edits"] ({} : RevisionFields) step j
  return ⟨← required fields.id?, ← required fields.date?, ← required fields.author?,
    ← required fields.edits?⟩
where
  step (fields : RevisionFields) (name : String) (value : Json) : Option (Decoded RevisionFields) :=
    match name with
    | "revision_id" => some do return { fields with id? := ← once fields.id? (readText value) }
    | "date" => some do return { fields with date? := ← once fields.date? (readDate value) }
    | "author" => some do return { fields with author? := ← once fields.author? (readText value) }
    | "edits" =>
      some do
        return { fields with
          edits? := ← once fields.edits? (readItems (readEdit (.outer 2)) value) }
    | _ => none

end Codec

end SourceHistory
