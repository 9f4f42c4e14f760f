import SourceHistory.Proofs.Codec.Decoded.Node
import SourceHistory.Proofs.Codec.Edit

namespace SourceHistory

namespace Edit

variable {e : Edit} {bound room : Nat}

/-- An edit that can be stored; a node to add nests less deep than `bound`. -/
structure StorableWithin (bound : Nat) (e : Edit) : Prop extends e.Storable where
  node : ∀ node, e = .addNode node → (node.toJson true).nesting < bound

theorem StorableWithin.mono (h : e.StorableWithin bound) (hle : bound ≤ room) :
    e.StorableWithin room :=
  { h with node := fun node hn => (h.node node hn).trans_le hle }

theorem nesting_setEdits_le (edits : List (SetEdit String)) :
    (Json.array (edits.map SetEdit.toJson)).nesting ≤ 2 := by
  refine Json.nesting_array_le_iff.2 ⟨by decide, List.forall_mem_map.2 fun s _ => ?_⟩
  cases s <;> exact Nat.le_refl 1

theorem nesting_listEdits_le (edits : List (ListEdit String)) :
    (Json.array (edits.map ListEdit.toJson)).nesting ≤ 3 := by
  refine Json.nesting_array_le_iff.2 ⟨by decide, List.forall_mem_map.2 fun l _ => ?_⟩
  cases l <;> exact Nat.le_refl 2

theorem StorableWithin.nesting_le (h : e.StorableWithin room) (hroom : 4 ≤ room) :
    e.toJson.nesting ≤ room := by
  refine Json.nesting_record_le_iff.2 ⟨by omega, List.forall_mem_cons.2 ⟨Nat.zero_le _, ?_⟩⟩
  have hnode := h.node
  have hset (edits : List (SetEdit String)) :
      (Json.array (edits.map SetEdit.toJson)).nesting ≤ room - 1 :=
    (nesting_setEdits_le edits).trans (by omega)
  have hlist (edits : List (ListEdit String)) :
      (Json.array (edits.map ListEdit.toJson)).nesting ≤ room - 1 :=
    (nesting_listEdits_le edits).trans (by omega)
  cases e <;>
    simp only [fields, List.forall_mem_append, List.forall_mem_cons, Codec.forall_mem_optionalField]
  case addNode node => exact ⟨Nat.le_sub_one_of_lt (hnode node rfl), List.forall_mem_nil _⟩
  case removeNode => exact ⟨Nat.zero_le _, List.forall_mem_nil _⟩
  case editType => exact ⟨⟨Nat.zero_le _, fun _ => hset _⟩, fun _ => hset _⟩
  case editFunction =>
    exact ⟨⟨⟨Nat.zero_le _, fun _ => hset _⟩, fun _ => hlist _⟩, fun _ => hlist _⟩
  case editVar => exact ⟨⟨Nat.zero_le _, fun _ => hset _⟩, fun _ => hlist _⟩

end Edit

namespace Codec

variable {j : Json} {bound : Nat} {e : Edit} {l : ListEdit String} {g g' : EditFields}

/-- A position that was read is a number of 64 bits. -/
def ListEditFields.Indexed (f : ListEditFields) : Prop := ∀ i, f.index? = some i → i < 2 ^ 64

theorem index_lt_of_readIndex {index : Nat} (h : readIndex j = .ok index) : index < 2 ^ 64 := by
  obtain ⟨f, hf, h⟩ := bind_eq_ok_iff.1 h
  have hindexed : f.Indexed := by
    refine readRecord_invariant hf nofun fun {state next name value} _ hstep hstate => ?_
    unfold readIndex.step at hstep
    split at hstep
    · obtain ⟨i, hread, rfl⟩ := exists_of_once hstep
      rintro _ ⟨⟩
      exact lt_of_readNatural hread
    · cases hstep
  exact hindexed index (required_eq_ok_iff.1 h)

theorem index_lt_of_readIndexed {entry : Nat × String} (h : readIndexed j = .ok entry) :
    entry.1 < 2 ^ 64 := by
  obtain ⟨f, hf, h⟩ := bind_eq_ok_iff.1 h
  have hindexed : f.Indexed := by
    refine readRecord_invariant hf nofun fun {state next name value} _ hstep hstate => ?_
    unfold readIndexed.step at hstep
    split at hstep
    · obtain ⟨i, hread, rfl⟩ := exists_of_once hstep
      rintro _ ⟨⟩
      exact lt_of_readNatural hread
    · obtain ⟨_, -, rfl⟩ := exists_of_once hstep
      exact hstate
    · cases hstep
  obtain ⟨index, hindex, h⟩ := bind_eq_ok_iff.1 h
  obtain ⟨value, -, h⟩ := bind_eq_ok_iff.1 h
  obtain rfl := pure_eq_ok_iff.1 h
  exact hindexed index (required_eq_ok_iff.1 hindex)

theorem index_lt_of_readListEdit (h : readListEdit j = .ok l) : l.index < 2 ^ 64 := by
  unfold readListEdit at h
  split at h
  · obtain ⟨⟨index, value⟩, hread, h⟩ := bind_eq_ok_iff.1 h
    obtain rfl := pure_eq_ok_iff.1 h
    exact index_lt_of_readIndexed hread
  · obtain ⟨index, hread, h⟩ := bind_eq_ok_iff.1 h
    obtain rfl := pure_eq_ok_iff.1 h
    exact index_lt_of_readIndex hread
  · obtain ⟨⟨index, value⟩, hread, h⟩ := bind_eq_ok_iff.1 h
    obtain rfl := pure_eq_ok_iff.1 h
    exact index_lt_of_readIndexed hread
  · cases h

theorem index_lt_of_readListEdits {edits : List (ListEdit String)}
    (h : readItems readListEdit j = .ok edits) : ∀ l ∈ edits, l.index < 2 ^ 64 := by
  intro l hl
  obtain ⟨item, -, hread⟩ := (exists_of_readItems h).2 l hl
  exact index_lt_of_readListEdit hread

/-- One more field of an edit, taken from `value`. -/
inductive EditFields.Takes (value : Json) (g : EditFields) : EditFields → Prop where
  | id (text : String) : Takes value g { g with id? := some text }
  | node {node : Node} : readNode .inner value = .ok node →
    Takes value g { g with node? := some node }
  | modifiers (edits : List (SetEdit String)) : Takes value g { g with modifiers? := some edits }
  | parameters {edits : List (ListEdit String)} : readItems readListEdit value = .ok edits →
    Takes value g { g with parameters? := some edits }
  | lines {edits : List (ListEdit String)} : readItems readListEdit value = .ok edits →
    Takes value g { g with lines? := some edits }

/-- The fields come from values that nest less deep than `bound`, and positions are numbers of 64
bits. -/
structure EditFields.Below (bound : Nat) (g : EditFields) : Prop where
  node : ∀ node, g.node? = some node → (node.toJson true).nesting < bound
  parameters : ∀ l ∈ g.parameters?.getD [], l.index < 2 ^ 64
  lines : ∀ l ∈ g.lines?.getD [], l.index < 2 ^ 64

theorem EditFields.Takes.below {value : Json} (h : g.Takes value g')
    (hvalue : value.nesting < bound) (hg : g.Below bound) : g'.Below bound := by
  cases h with
  | id => exact { hg with }
  | node hread =>
    refine { hg with node := ?_ }
    rintro _ ⟨⟩
    exact ((readsValid_readNode .inner _ _ hread).nesting_le true).trans_lt hvalue
  | modifiers => exact { hg with }
  | parameters hread => exact { hg with parameters := index_lt_of_readListEdits hread }
  | lines hread => exact { hg with lines := index_lt_of_readListEdits hread }

theorem EditFields.Below.of_readRecord {names : List String}
    {step : EditFields → String → Json → Option (Decoded EditFields)}
    (h : readRecord names {} step j = .ok g)
    (hstep : ∀ {g g' : EditFields} {name : String} {value : Json},
      step g name value = some (.ok g') → g.Takes value g') : g.Below j.nesting :=
  readRecord_invariant h ⟨nofun, nofun, nofun⟩
    fun hvalue htaken hg => (hstep htaken).below hvalue hg

section Steps

variable {name : String} {value : Json}

theorem readAddNode_step (h : readAddNode.step g name value = some (.ok g')) :
    g.Takes value g' := by
  unfold readAddNode.step at h
  split at h
  · obtain ⟨node, hread, rfl⟩ := exists_of_once h
    exact .node hread
  · cases h

theorem readEditFunction_step (h : readEditFunction.step g name value = some (.ok g')) :
    g.Takes value g' := by
  unfold readEditFunction.step at h
  split at h
  · obtain ⟨text, -, rfl⟩ := exists_of_once h
    exact .id text
  · obtain ⟨edits, -, rfl⟩ := exists_of_once h
    exact .modifiers edits
  · obtain ⟨edits, hread, rfl⟩ := exists_of_once h
    exact .parameters hread
  · obtain ⟨edits, hread, rfl⟩ := exists_of_once h
    exact .lines hread
  · cases h

theorem readEditVar_step (h : readEditVar.step g name value = some (.ok g')) :
    g.Takes value g' := by
  unfold readEditVar.step at h
  split at h
  · obtain ⟨text, -, rfl⟩ := exists_of_once h
    exact .id text
  · obtain ⟨edits, -, rfl⟩ := exists_of_once h
    exact .modifiers edits
  · obtain ⟨edits, hread, rfl⟩ := exists_of_once h
    exact .lines hread
  · cases h

end Steps

theorem readsStorable_readEdit {place : Place} (h : readEdit place j = .ok e) :
    e.StorableWithin j.nesting := by
  obtain ⟨-, h⟩ := check_bind_eq_ok_iff.1 h
  obtain ⟨⟨tag, record⟩, hsplit, h⟩ := bind_eq_ok_iff.1 h
  have hle := nesting_of_splitTag hsplit
  match tag, h with
  | 0, h =>
    obtain ⟨g, hg, h⟩ := bind_eq_ok_iff.1 h
    obtain ⟨node, hnode, h⟩ := bind_eq_ok_iff.1 h
    obtain ⟨hcheck, rfl⟩ := Edit.make_eq_ok_iff.1 (construct_eq_ok_iff.1 h)
    have hbelow := EditFields.Below.of_readRecord hg readAddNode_step
    refine ⟨⟨hcheck, nofun⟩, ?_⟩
    rintro _ ⟨⟩
    exact (hbelow.node node (required_eq_ok_iff.1 hnode)).trans_le hle
  | 1, h =>
    obtain ⟨g, hg, h⟩ := bind_eq_ok_iff.1 h
    obtain ⟨id, -, h⟩ := bind_eq_ok_iff.1 h
    obtain ⟨hcheck, rfl⟩ := Edit.make_eq_ok_iff.1 (construct_eq_ok_iff.1 h)
    exact ⟨⟨hcheck, nofun⟩, nofun⟩
  | 2, h =>
    obtain ⟨g, hg, h⟩ := bind_eq_ok_iff.1 h
    obtain ⟨id, -, h⟩ := bind_eq_ok_iff.1 h
    obtain ⟨hcheck, rfl⟩ := Edit.make_eq_ok_iff.1 (construct_eq_ok_iff.1 h)
    exact ⟨⟨hcheck, nofun⟩, nofun⟩
  | 3, h =>
    obtain ⟨g, hg, h⟩ := bind_eq_ok_iff.1 h
    obtain ⟨id, -, h⟩ := bind_eq_ok_iff.1 h
    obtain ⟨hcheck, rfl⟩ := Edit.make_eq_ok_iff.1 (construct_eq_ok_iff.1 h)
    have hbelow := EditFields.Below.of_readRecord hg readEditFunction_step
    exact ⟨⟨hcheck, List.forall_mem_append.2 ⟨hbelow.parameters, hbelow.lines⟩⟩, nofun⟩
  | _ + 4, h =>
    obtain ⟨g, hg, h⟩ := bind_eq_ok_iff.1 h
    obtain ⟨id, -, h⟩ := bind_eq_ok_iff.1 h
    obtain ⟨hcheck, rfl⟩ := Edit.make_eq_ok_iff.1 (construct_eq_ok_iff.1 h)
    have hbelow := EditFields.Below.of_readRecord hg readEditVar_step
    exact ⟨⟨hcheck, hbelow.lines⟩, nofun⟩

theorem storableWithin_of_readEdit {depth : Nat} (h : readEdit (.outer depth) j = .ok e) :
    e.StorableWithin (maxDepth - depth) := by
  have hcheck : (Place.outer depth).check j = .ok () := (check_bind_eq_ok_iff.1 h).1
  exact (readsStorable_readEdit h).mono (nesting_le_of_check hcheck)

end Codec

end SourceHistory
