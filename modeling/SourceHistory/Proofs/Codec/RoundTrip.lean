import SourceHistory.Codec.Revision
import SourceHistory.Proofs.Codec.Edit

namespace SourceHistory

open Json (keyed Plain)

variable {t : Transaction}

theorem Transaction.plain_toJson (hedits : ∀ e ∈ t.edits, e.Storable) : Plain t.toJson := by
  have harray : Plain (.array (t.edits.map Edit.toJson)) :=
    Codec.plain_array_map fun e he => (hedits e he).plain_toJson
  exact Plain.record (by simp [Plain.text, harray])

namespace Codec

theorem readDate_text {text : String} {date : Time.Instant}
    (h : Time.Instant.parse? text = some date) : readDate (.text text) = .ok date := by
  change required (Time.Instant.parse? text) = _
  rw [h]
  rfl

theorem readTransaction_toJson (hdate : Time.Instant.parse? t.date.rfc3339 = some t.date)
    (hedits : ∀ e ∈ t.edits, e.Storable) (hroom : t.toJson.nesting ≤ maxDepth) :
    readTransaction t.toJson = .ok t := by
  obtain ⟨-, hfields⟩ := Json.nesting_record_le_iff.1 hroom
  have harray := hfields ("edits", .array (t.edits.map Edit.toJson)) (by simp)
  obtain ⟨-, hitems⟩ := Json.nesting_array_le_iff.1 harray
  have hread : ∀ e ∈ t.edits, readEdit (.outer 2) e.toJson = .ok e := by
    intro e he
    have hnesting : e.toJson.nesting ≤ maxDepth - 2 := hitems _ (List.mem_map_of_mem he)
    have hcheck := check_outer (hedits e he).plain_toJson hnesting
    exact readEdit_toJson (hedits e he) (hnesting.trans (by decide)) hcheck
  obtain ⟨revisionId, date, author, edits⟩ := t
  simp only [Transaction.toJson] at hdate hread ⊢
  -- only `hdate` speaks about the text of the date; computing with it would unfold the calendar
  generalize date.rfc3339 = text at hdate ⊢
  rw [readTransaction, readRecord_record,
    readFields_field _ "revision_id" (RevisionFields.mk · none none none)
      (readText_text revisionId) rfl,
    readFields_field _ "date" (RevisionFields.mk (some revisionId) · none none)
      (readDate_text hdate) rfl,
    readFields_field _ "author" (RevisionFields.mk (some revisionId) (some date) · none)
      (readText_text author) rfl,
    readFields_field _ "edits" (RevisionFields.mk (some revisionId) (some date) (some author) ·)
      (readItems_map hread) rfl]
  rfl

/-- Decoding undoes encoding for everything that is stored. -/
theorem decode_compact_toJson :
    (∀ u : SourceUnit, u.Constructed → u.toJson.nesting ≤ 127 →
      decode readWholeUnit u.toJson.compact = .ok u) ∧
    (∀ n : Node, n.Constructed → n.kind = .type → (n.toJson false).nesting ≤ 127 →
      decode readWholeType (n.toJson false).compact = .ok n) ∧
    (∀ n : Node, n.Constructed → n.kind = .function →
      decode readFunction (n.toJson false).compact = .ok n) ∧
    (∀ n : Node, n.Constructed → n.kind = .var →
      decode readVar (n.toJson false).compact = .ok n) ∧
    (∀ n : Node, n.Constructed → n.kind ≠ .unit → (n.toJson true).nesting ≤ 127 →
      decode (readEntity (.outer 0)) (n.toJson true).compact = .ok n) ∧
    (∀ n : Node, n.Constructed → (n.toJson true).nesting ≤ 127 →
      decode (readNode (.outer 0)) (n.toJson true).compact = .ok n) ∧
    (∀ e : Edit, e.Storable → e.toJson.nesting ≤ 127 →
      decode (readEdit (.outer 0)) e.toJson.compact = .ok e) ∧
    (∀ e : SetEdit String, decode readSetEdit e.toJson.compact = .ok e) ∧
    (∀ e : ListEdit String, e.index < 2 ^ 64 → decode readListEdit e.toJson.compact = .ok e) ∧
    (∀ t : Transaction, Time.Instant.parse? t.date.rfc3339 = some t.date →
      (∀ e ∈ t.edits, e.Storable) → t.toJson.nesting ≤ 127 →
        decode readTransaction t.toJson.compact = .ok t) := by
  refine ⟨?unit, ?type, ?function, ?var, ?entity, ?node, ?edit, ?setEdit, ?listEdit, ?transaction⟩
  case unit =>
    intro u hu hroom
    exact decode_compact (u.toNode.plain_toJson false) (readWholeUnit_toJson hu.validate hroom)
  case type =>
    intro n hn hkind hroom
    have hread := readWholeType_toJson (Node.constructed_iff.1 hn) hkind hroom
    exact decode_compact (n.plain_toJson false) hread
  case function =>
    intro n hn hkind
    have hread := readFunction_toJson (Node.constructed_iff.1 hn) hkind
    exact decode_compact (n.plain_toJson false) hread
  case var =>
    intro n hn hkind
    have hread := readVar_toJson (Node.constructed_iff.1 hn) hkind
    exact decode_compact (n.plain_toJson false) hread
  case entity =>
    intro n hn hkind hroom
    have hplain := n.plain_toJson true
    exact decode_compact hplain
      (readEntityWithin_toJson (Node.constructed_iff.1 hn) hkind hroom (check_outer hplain hroom))
  case node =>
    intro n hn hroom
    have hplain := n.plain_toJson true
    exact decode_compact hplain
      (readNode_toJson (Node.constructed_iff.1 hn) hroom (check_outer hplain hroom))
  case edit =>
    intro e he hroom
    have hplain := he.plain_toJson
    exact decode_compact hplain (readEdit_toJson he hroom (check_outer hplain hroom))
  case setEdit =>
    intro e
    exact decode_compact e.plain_toJson (readSetEdit_toJson e)
  case listEdit =>
    intro e hindex
    exact decode_compact (ListEdit.plain_toJson hindex) (readListEdit_toJson hindex)
  case transaction =>
    intro t hdate hedits hroom
    exact decode_compact (t.plain_toJson hedits) (readTransaction_toJson hdate hedits hroom)

/-- A type with a function that has a parameter, alone, in a unit and in a transaction. -/
theorem decode_compact_toJson_of_nested :
    let parameter : Node := ⟨"a:T:f(p):p", .var ∅ ["\"\\\n\x01😀"], []⟩
    let function : Node := ⟨"a:T:f(p)", .function ∅ ["g(p)"], [parameter]⟩
    let type : Node := ⟨"a:T", .type (.ofList ["open", "final"]) ∅, [function]⟩
    let u : SourceUnit := ⟨"a", [type]⟩
    let last : ListEdit String := .remove (2 ^ 64 - 1)
    let e := Edit.editFunction "a:T:f(p)" [.add "open"] [] [last]
    let t : Transaction := ⟨"1", ⟨0, 0⟩, "", [.addNode u.toNode, e]⟩
    decode readWholeUnit u.toJson.compact = .ok u ∧
      decode readWholeType (type.toJson false).compact = .ok type ∧
      decode readFunction (function.toJson false).compact = .ok function ∧
      decode readVar (parameter.toJson false).compact = .ok parameter ∧
      decode (readEntity (.outer 0)) (type.toJson true).compact = .ok type ∧
      decode (readNode (.outer 0)) (u.toNode.toJson true).compact = .ok u.toNode ∧
      decode (readEdit (.outer 0)) e.toJson.compact = .ok e ∧
      decode readListEdit last.toJson.compact = .ok last ∧
      decode readTransaction t.toJson.compact = .ok t := by
  intro parameter function type u last e t
  obtain ⟨hunit, htype, hfunction, hvar, hentity, hnode, hedit, -, hlist, htransaction⟩ :=
    decode_compact_toJson
  have hu : u.validate = .ok () := by decide +kernel
  have ht : type.Constructed := Node.constructed_iff.2 (by decide +kernel)
  have hf : function.Constructed := Node.constructed_iff.2 (by decide +kernel)
  have hp : parameter.Constructed := Node.constructed_iff.2 (by decide +kernel)
  have hindex : last.index < 2 ^ 64 := by decide +kernel
  have he : e.Storable := ⟨by decide +kernel, List.forall_mem_singleton.2 hindex⟩
  have hadd : (Edit.addNode u.toNode).Storable := ⟨hu, nofun⟩
  have hdate : Time.Instant.parse? t.date.rfc3339 = some t.date := by decide +kernel
  have hedits : ∀ e ∈ t.edits, e.Storable :=
    List.forall_mem_cons.2 ⟨hadd, List.forall_mem_singleton.2 he⟩
  exact ⟨hunit u (SourceUnit.constructed_of_validate hu) (by decide +kernel),
    htype type ht rfl (by decide +kernel), hfunction function hf rfl, hvar parameter hp rfl,
    hentity type ht (by decide) (by decide +kernel),
    hnode u.toNode (Node.constructed_iff.2 hu) (by decide +kernel),
    hedit e he (by decide +kernel), hlist last hindex,
    htransaction t hdate hedits (by decide +kernel)⟩

end Codec

end SourceHistory
