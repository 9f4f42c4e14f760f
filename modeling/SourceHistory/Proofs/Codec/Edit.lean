import SourceHistory.Codec.Edit
import SourceHistory.Proofs.Codec.Node

namespace SourceHistory

open Json (keyed Plain)

theorem SetEdit.plain_toJson (e : SetEdit String) : Plain e.toJson := by
  cases e <;> exact Plain.record (by simp [Plain.text])

theorem ListEdit.plain_toJson {e : ListEdit String} (h : e.index < 2 ^ 64) : Plain e.toJson := by
  have hnat : Plain (.nat e.index) := Plain.nat h
  cases e <;> refine Plain.record (List.forall_mem_singleton.2 (Plain.record ?_)) <;>
    simpa [Plain.text, index] using hnat

namespace Codec

theorem readSetEdit_toJson (e : SetEdit String) : readSetEdit e.toJson = .ok e := by
  cases e <;> rfl

theorem readIndex_record {index : Nat} (h : index < 2 ^ 64) :
    readIndex (.record [("index", .nat index)]) = .ok index := by
  rw [readIndex, readRecord_record,
    readFields_field _ "index" (ListEditFields.mk · none) (readNatural_nat h) rfl]
  rfl

theorem readIndexed_record {index : Nat} (value : String) (h : index < 2 ^ 64) :
    readIndexed (.record [("index", .nat index), ("value", .text value)]) = .ok (index, value) := by
  rw [readIndexed, readRecord_record,
    readFields_field _ "index" (ListEditFields.mk · none) (readNatural_nat h) rfl,
    readFields_field _ "value" (ListEditFields.mk (some index) ·) (readText_text value) rfl]
  rfl

theorem readListEdit_toJson {e : ListEdit String} (h : e.index < 2 ^ 64) :
    readListEdit e.toJson = .ok e := by
  cases e with
  | add index value =>
    have hindex : index < 2 ^ 64 := h
    change (readIndexed (.record _) >>= _) = _
    rw [readIndexed_record value hindex]
    rfl
  | remove index =>
    have hindex : index < 2 ^ 64 := h
    change (readIndex (.record _) >>= _) = _
    rw [readIndex_record hindex]
    rfl
  | replace index value =>
    have hindex : index < 2 ^ 64 := h
    change (readIndexed (.record _) >>= _) = _
    rw [readIndexed_record value hindex]
    rfl

end Codec

namespace Edit

variable {e : Edit}

def listEdits : Edit → List (ListEdit String)
  | addNode _ => []
  | removeNode _ => []
  | editType .. => []
  | editFunction _ _ parameters body => parameters ++ body
  | editVar _ _ initializer => initializer

/-- An edit that passes its check and whose positions are numbers of 64 bits. -/
structure Storable (e : Edit) : Prop where
  check : e.check = .ok ()
  index_lt : ∀ l ∈ e.listEdits, l.index < 2 ^ 64

theorem key_ne_type (e : Edit) : ∀ field ∈ e.fields, field.1 ≠ "type" := by
  cases e <;>
    simp only [fields, List.forall_mem_append, List.forall_mem_cons,
      Codec.forall_mem_optionalField] <;>
    simp

theorem Storable.plain_toJson (h : e.Storable) : Plain e.toJson := by
  have hsets : ∀ edits : List (SetEdit String), Plain (.array (edits.map SetEdit.toJson)) :=
    fun edits => Codec.plain_array_map fun s _ => s.plain_toJson
  have hlists : ∀ {edits : List (ListEdit String)}, (∀ l ∈ edits, l.index < 2 ^ 64) →
      Plain (.array (edits.map ListEdit.toJson)) :=
    fun hindex => Codec.plain_array_map fun l hl => ListEdit.plain_toJson (hindex l hl)
  have hindex := h.index_lt
  refine Plain.record (List.forall_mem_cons.2 ⟨Plain.text _, ?_⟩)
  cases e with
  | addNode node => exact List.forall_mem_singleton.2 (node.plain_toJson true)
  | removeNode id => exact List.forall_mem_singleton.2 (Plain.text id)
  | editType id modifiers supertypes =>
    simp only [fields, List.forall_mem_append, List.forall_mem_cons, Codec.forall_mem_optionalField]
    simp [Plain.text, hsets]
  | editFunction id modifiers parameters body =>
    obtain ⟨hparameters, hbody⟩ := List.forall_mem_append.1 hindex
    simp only [fields, List.forall_mem_append, List.forall_mem_cons, Codec.forall_mem_optionalField]
    simp [Plain.text, hsets, hlists hparameters, hlists hbody]
  | editVar id modifiers initializer =>
    have hinitializer : ∀ l ∈ initializer, l.index < 2 ^ 64 := hindex
    simp only [fields, List.forall_mem_append, List.forall_mem_cons, Codec.forall_mem_optionalField]
    simp [Plain.text, hsets, hlists hinitializer]

theorem make_eq_ok_iff {e' : Edit} : e.make = .ok e' ↔ e.check = .ok () ∧ e = e' := by
  rw [make, check_bind_eq_ok_iff, pure_eq_ok_iff]

end Edit

namespace Codec

variable {e : Edit}

theorem readAddNode_record {node : Node} (h : (Edit.addNode node).check = .ok ())
    (hroom : (node.toJson true).nesting ≤ maxDepth) :
    readAddNode (.record (Edit.addNode node).fields) = .ok (.addNode node) := by
  rw [readAddNode, readRecord_record, Edit.fields,
    readFields_field _ "node" (EditFields.mk none · none none none none)
      (readNode_toJson h hroom rfl) rfl]
  exact construct_eq_ok_iff.2 (Edit.make_eq_ok_iff.2 ⟨h, rfl⟩)

theorem readRemoveNode_record {id : String} (h : (Edit.removeNode id).check = .ok ()) :
    readRemoveNode (.record (Edit.removeNode id).fields) = .ok (.removeNode id) := by
  rw [readRemoveNode, readRecord_record, Edit.fields,
    readFields_field _ "id" (EditFields.mk · none none none none none) (readText_text id) rfl]
  exact construct_eq_ok_iff.2 (Edit.make_eq_ok_iff.2 ⟨h, rfl⟩)

theorem readSetEdits_map (edits : List (SetEdit String)) :
    readItems readSetEdit (.array (edits.map SetEdit.toJson)) = .ok edits :=
  readItems_map fun s _ => readSetEdit_toJson s

theorem readListEdits_map {edits : List (ListEdit String)} (h : ∀ l ∈ edits, l.index < 2 ^ 64) :
    readItems readListEdit (.array (edits.map ListEdit.toJson)) = .ok edits :=
  readItems_map fun l hl => readListEdit_toJson (h l hl)

theorem readEditType_record {id : String} {modifiers supertypes : List (SetEdit String)}
    (h : (Edit.editType id modifiers supertypes).check = .ok ()) :
    readEditType (.record (Edit.editType id modifiers supertypes).fields) =
      .ok (.editType id modifiers supertypes) := by
  rw [readEditType, readRecord_record, Edit.fields, List.cons_append,
    ← List.append_nil (optionalField "supertype_edits" _),
    readFields_field _ "id" (EditFields.mk · none none none none none) (readText_text id) rfl,
    readFields_optionalField _ "modifier_edits" (EditFields.mk (some id) none · none none none)
      (readSetEdits_map modifiers) rfl,
    readFields_optionalField _ "supertype_edits"
      (EditFields.mk (some id) none (slot modifiers modifiers) · none none)
      (readSetEdits_map supertypes) rfl]
  change construct (Edit.editType id ((slot _ modifiers).getD []) ((slot _ supertypes).getD [])).make
    = _
  rw [getD_slot_self, getD_slot_self]
  exact construct_eq_ok_iff.2 (Edit.make_eq_ok_iff.2 ⟨h, rfl⟩)

theorem readEditFunction_record {id : String} {modifiers : List (SetEdit String)}
    {parameters body : List (ListEdit String)}
    (h : (Edit.editFunction id modifiers parameters body).Storable) :
    readEditFunction (.record (Edit.editFunction id modifiers parameters body).fields) =
      .ok (.editFunction id modifiers parameters body) := by
  obtain ⟨hparameters, hbody⟩ := List.forall_mem_append.1 h.index_lt
  rw [readEditFunction, readRecord_record, Edit.fields, List.cons_append, List.cons_append,
    List.append_assoc, ← List.append_nil (optionalField "body_edits" _),
    readFields_field _ "id" (EditFields.mk · none none none none none) (readText_text id) rfl,
    readFields_optionalField _ "modifier_edits" (EditFields.mk (some id) none · none none none)
      (readSetEdits_map modifiers) rfl,
    readFields_optionalField _ "parameter_edits"
      (EditFields.mk (some id) none (slot modifiers modifiers) none · none)
      (readListEdits_map hparameters) rfl,
    readFields_optionalField _ "body_edits"
      (EditFields.mk (some id) none (slot modifiers modifiers) none (slot parameters parameters) ·)
      (readListEdits_map hbody) rfl]
  change construct (Edit.editFunction id ((slot _ modifiers).getD []) ((slot _ parameters).getD [])
    ((slot _ body).getD [])).make = _
  rw [getD_slot_self, getD_slot_self, getD_slot_self]
  exact construct_eq_ok_iff.2 (Edit.make_eq_ok_iff.2 ⟨h.check, rfl⟩)

theorem readEditVar_record {id : String} {modifiers : List (SetEdit String)}
    {initializer : List (ListEdit String)} (h : (Edit.editVar id modifiers initializer).Storable) :
    readEditVar (.record (Edit.editVar id modifiers initializer).fields) =
      .ok (.editVar id modifiers initializer) := by
  have hinitializer : ∀ l ∈ initializer, l.index < 2 ^ 64 := h.index_lt
  rw [readEditVar, readRecord_record, Edit.fields, List.cons_append,
    ← List.append_nil (optionalField "initializer_edits" _),
    readFields_field _ "id" (EditFields.mk · none none none none none) (readText_text id) rfl,
    readFields_optionalField _ "modifier_edits" (EditFields.mk (some id) none · none none none)
      (readSetEdits_map modifiers) rfl,
    readFields_optionalField _ "initializer_edits"
      (EditFields.mk (some id) none (slot modifiers modifiers) none none ·)
      (readListEdits_map hinitializer) rfl]
  change construct (Edit.editVar id ((slot _ modifiers).getD []) ((slot _ initializer).getD [])).make
    = _
  rw [getD_slot_self, getD_slot_self]
  exact construct_eq_ok_iff.2 (Edit.make_eq_ok_iff.2 ⟨h.check, rfl⟩)

theorem readEdit_toJson {place : Place} (h : e.Storable) (hroom : e.toJson.nesting ≤ maxDepth)
    (hcheck : place.check e.toJson = .ok ()) : readEdit place e.toJson = .ok e := by
  have hsplit : ∀ {i : Nat},
      ["add_node", "remove_node", "edit_type", "edit_function", "edit_variable"].idxOf? e.tag =
          some i →
        splitTag place "type"
            ["add_node", "remove_node", "edit_type", "edit_function", "edit_variable"] e.toJson =
          .ok (i, .record e.fields) :=
    fun htag => splitTag_record place htag e.key_ne_type
  cases e with
  | addNode node =>
    obtain ⟨-, hfields⟩ := Json.nesting_record_le_iff.1 hroom
    have hnode := hfields ("node", node.toJson true) (by simp [Edit.fields])
    simp only [readEdit, hcheck, hsplit (i := 0) rfl]
    exact readAddNode_record h.check (hnode.trans (Nat.sub_le _ _))
  | removeNode id =>
    simp only [readEdit, hcheck, hsplit (i := 1) rfl]
    exact readRemoveNode_record h.check
  | editType id modifiers supertypes =>
    simp only [readEdit, hcheck, hsplit (i := 2) rfl]
    exact readEditType_record h.check
  | editFunction id modifiers parameters body =>
    simp only [readEdit, hcheck, hsplit (i := 3) rfl]
    exact readEditFunction_record h
  | editVar id modifiers initializer =>
    simp only [readEdit, hcheck, hsplit (i := 4) rfl]
    exact readEditVar_record h

end Codec

end SourceHistory
