import SourceHistory.Proofs.Codec.Decoded.Basic
import SourceHistory.Proofs.Codec.Node

namespace SourceHistory

namespace Node

variable {n : Node} {tagged : Bool} {room : Nat}

/-- The fields of a node that hold texts. -/
def textFields (n : Node) : List (String × Json) :=
  attributeFields n.id n.attributes ++ bodyField n.attributes

theorem nesting_textFields_le (n : Node) : ∀ field ∈ n.textFields, field.2.nesting ≤ 1 := by
  have hid : (Json.text n.id).nesting ≤ 1 := Nat.zero_le 1
  obtain ⟨id, attributes, children⟩ := n
  cases attributes <;>
    simp only [textFields, attributeFields, bodyField, List.forall_mem_append,
      List.forall_mem_cons, Codec.forall_mem_optionalField] <;>
    simp [hid, Codec.nesting_texts_le]

/-- A document nests two levels deeper than those of the children. -/
theorem nesting_childDocuments_lt (hne : n.children ≠ [])
    (hchildren : ∀ c ∈ n.children, ∀ tagged, (c.toJson tagged).nesting + 1 < room) :
    (Json.array n.childDocuments).nesting < room := by
  obtain ⟨c, hc⟩ := List.exists_mem_of_ne_nil _ hne
  have hroom := hchildren c hc true
  have hitems : ∀ document ∈ n.childDocuments, document.nesting ≤ room - 1 - 1 := by
    refine List.forall_mem_map.2 fun c hc => ?_
    have hchild := hchildren c hc (n.kind ≠ .function)
    omega
  have harray := Json.nesting_array_le_iff.2 ⟨by omega, hitems⟩
  omega

theorem nesting_toJson_le (hpos : 0 < room)
    (htexts : ∀ field ∈ n.textFields, field.2.nesting < room)
    (hchildren : ∀ c ∈ n.children, ∀ tagged, (c.toJson tagged).nesting + 1 < room) :
    (n.toJson tagged).nesting ≤ room := by
  obtain ⟨hattributes, hbody⟩ := List.forall_mem_append.1 htexts
  have hlist : n.childDocuments ≠ [] → (Json.array n.childDocuments).nesting < room :=
    fun hne => nesting_childDocuments_lt (mt List.map_eq_nil_iff.2 hne) hchildren
  have hown : ∀ field ∈ n.ownFields, field.2.nesting < room := by
    simp only [ownFields, List.forall_mem_append]
    exact ⟨hattributes, Codec.forall_mem_optionalField.2 hlist, hbody⟩
  rw [toJson_eq, Json.nesting_record_le_iff]
  refine ⟨hpos, List.forall_mem_append.2 ⟨?_, fun field hf => Nat.le_sub_one_of_lt (hown field hf)⟩⟩
  cases tagged with
  | false => exact List.forall_mem_nil _
  | true => exact List.forall_mem_singleton.2 (Nat.zero_le _)

/-- A valid node whose document, tagged or not, nests at most `depth` deep. -/
structure ValidWithin (depth : Nat) (n : Node) : Prop where
  validate : n.validate = .ok ()
  nesting_le : ∀ tagged, (n.toJson tagged).nesting ≤ depth

theorem ValidWithin.mono {depth : Nat} (h : n.ValidWithin depth) (hle : depth ≤ room) :
    n.ValidWithin room :=
  ⟨h.validate, fun tagged => (h.nesting_le tagged).trans hle⟩

theorem ValidWithin.of_children (hn : n.WellFormed) (hpos : 0 < room)
    (htexts : ∀ field ∈ n.textFields, field.2.nesting < room)
    (hchildren : ∀ c ∈ n.children, ∃ depth, depth + 1 < room ∧ c.ValidWithin depth) :
    n.ValidWithin room where
  validate := by
    refine validate_eq_ok_iff_children.2 ⟨hn, fun c hc => ?_⟩
    obtain ⟨_, -, hvalid⟩ := hchildren c hc
    exact hvalid.validate
  nesting_le tagged := by
    refine nesting_toJson_le hpos htexts fun c hc tagged => ?_
    obtain ⟨depth, hdepth, hvalid⟩ := hchildren c hc
    exact (Nat.succ_le_succ (hvalid.nesting_le tagged)).trans_lt hdepth

/-- A node of a kind, put together from parts of `j`: its texts from fields of `j`, and its children
from items of these, by `readChild`. -/
structure ReadFrom (readChild : Json → Decoded Node) (kind : Kind) (j : Json) (n : Node) :
    Prop where
  wellFormed : n.WellFormed
  kind_eq : n.kind = kind
  nesting_pos : 0 < j.nesting
  texts : ∀ field ∈ n.textFields, field.2.nesting < j.nesting
  children : ∀ c ∈ n.children, ∃ item : Json, item.nesting + 1 < j.nesting ∧ readChild item = .ok c

/-- What a reader gives is valid, and nests no deeper than what it was read from, whatever else
stood there. -/
def ReadsValid (read : Json → Decoded Node) : Prop :=
  ∀ j n, read j = .ok n → n.ValidWithin j.nesting

theorem ReadFrom.validWithin {readChild : Json → Decoded Node} {kind : Kind} {j : Json}
    (h : n.ReadFrom readChild kind j) (hchild : ReadsValid readChild) :
    n.ValidWithin j.nesting := by
  refine .of_children h.wellFormed h.nesting_pos h.texts fun c hc => ?_
  obtain ⟨item, hitem, hread⟩ := h.children c hc
  exact ⟨item.nesting, hitem, hchild item c hread⟩

end Node

namespace Codec

variable {readChild : Json → Decoded Node} {bound : Nat} {j : Json} {n : Node} {u : SourceUnit}
  {f f' : NodeFields} {kind : Kind}

/-- One more field of a node, taken from `value`. -/
inductive NodeFields.Takes (readChild : Json → Decoded Node) (value : Json) (f : NodeFields) :
    NodeFields → Prop where
  | id (text : String) : Takes readChild value f { f with id? := some text }
  | modifiers {names : NameSet} : readNames value = .ok names →
    Takes readChild value f { f with modifiers? := some names }
  | supertypes {names : NameSet} : readNames value = .ok names →
    Takes readChild value f { f with supertypes? := some names }
  | lines {texts : List String} : readTexts value = .ok texts →
    Takes readChild value f { f with lines? := some texts }
  | children {nodes : List Node} : readItems readChild value = .ok nodes →
    Takes readChild value f { f with children? := some nodes }

/-- The fields come from values that nest less deep than `bound`. -/
structure NodeFields.Below (readChild : Json → Decoded Node) (bound : Nat) (f : NodeFields) :
    Prop where
  pos : 0 < bound
  modifiers : f.modifiers? ≠ none → 1 < bound
  supertypes : f.supertypes? ≠ none → 1 < bound
  lines : f.lines? ≠ none → 1 < bound
  children : ∀ c ∈ f.children?.getD [], ∃ item : Json, item.nesting + 1 < bound ∧
    readChild item = .ok c

theorem NodeFields.Below.empty (hpos : 0 < bound) : NodeFields.Below readChild bound {} :=
  ⟨hpos, nofun, nofun, nofun, nofun⟩

theorem NodeFields.Takes.below {value : Json} (h : f.Takes readChild value f')
    (hvalue : value.nesting < bound) (hf : f.Below readChild bound) :
    f'.Below readChild bound := by
  cases h with
  | id => exact { hf with }
  | modifiers hread =>
    have hpos := nesting_pos_of_readNames hread
    exact { hf with modifiers := fun _ => by omega }
  | supertypes hread =>
    have hpos := nesting_pos_of_readNames hread
    exact { hf with supertypes := fun _ => by omega }
  | lines hread =>
    have hpos := nesting_pos_of_readTexts hread
    exact { hf with lines := fun _ => by omega }
  | children hread =>
    obtain ⟨-, hitems⟩ := exists_of_readItems hread
    refine { hf with children := fun c hc => ?_ }
    obtain ⟨item, hitem, hc⟩ := hitems c hc
    exact ⟨item, by omega, hc⟩

theorem NodeFields.Below.of_readRecord {names : List String}
    {step : NodeFields → String → Json → Option (Decoded NodeFields)}
    (h : readRecord names {} step j = .ok f)
    (hstep : ∀ {f f' : NodeFields} {name : String} {value : Json},
      step f name value = some (.ok f') → f.Takes readChild value f') :
    f.Below readChild j.nesting :=
  readRecord_invariant h (.empty (nesting_pos_of_readRecord h))
    fun hvalue htaken hf => (hstep htaken).below hvalue hf

theorem readVar_step {name : String} {value : Json}
    (h : readVar.step f name value = some (.ok f')) : f.Takes readChild value f' := by
  unfold readVar.step at h
  split at h
  · obtain ⟨text, -, rfl⟩ := exists_of_once h
    exact .id text
  · obtain ⟨names, hread, rfl⟩ := exists_of_once h
    exact .modifiers hread
  · obtain ⟨texts, hread, rfl⟩ := exists_of_once h
    exact .lines hread
  · cases h

theorem readFunction_step {name : String} {value : Json}
    (h : readFunction.step f name value = some (.ok f')) : f.Takes readVar value f' := by
  unfold readFunction.step at h
  split at h
  · obtain ⟨text, -, rfl⟩ := exists_of_once h
    exact .id text
  · obtain ⟨names, hread, rfl⟩ := exists_of_once h
    exact .modifiers hread
  · obtain ⟨nodes, hread, rfl⟩ := exists_of_once h
    exact .children hread
  · obtain ⟨texts, hread, rfl⟩ := exists_of_once h
    exact .lines hread
  · cases h

theorem readType_step {name : String} {value : Json}
    (h : readType.step readChild f name value = some (.ok f')) : f.Takes readChild value f' := by
  unfold readType.step at h
  split at h
  · obtain ⟨text, -, rfl⟩ := exists_of_once h
    exact .id text
  · obtain ⟨names, hread, rfl⟩ := exists_of_once h
    exact .modifiers hread
  · obtain ⟨names, hread, rfl⟩ := exists_of_once h
    exact .supertypes hread
  · obtain ⟨nodes, hread, rfl⟩ := exists_of_once h
    exact .children hread
  · cases h

theorem readUnit_step {name : String} {value : Json}
    (h : readUnit.step readChild f name value = some (.ok f')) : f.Takes readChild value f' := by
  unfold readUnit.step at h
  split at h
  · obtain ⟨text, -, rfl⟩ := exists_of_once h
    exact .id text
  · obtain ⟨nodes, hread, rfl⟩ := exists_of_once h
    exact .children hread
  · cases h

/-- The attributes of a node of a kind; what did not come is empty. -/
def NodeFields.attributes (f : NodeFields) : Kind → Attributes
  | .unit => .unit
  | .type => .type (f.modifiers?.getD ∅) (f.supertypes?.getD ∅)
  | .function => .function (f.modifiers?.getD ∅) (f.lines?.getD [])
  | .var => .var (f.modifiers?.getD ∅) (f.lines?.getD [])

/-- A field that is written was read as a list, so there is room for one. -/
theorem nesting_slot_lt {β : Type} {slot : Option β} {empty : β} {texts : β → List String}
    (hempty : texts empty = []) (h : slot ≠ none → 1 < bound) :
    (texts (slot.getD empty)).map Json.text ≠ [] →
      (Json.array ((texts (slot.getD empty)).map .text)).nesting < bound := by
  intro hne
  cases slot with
  | none =>
    rw [Option.getD_none, hempty] at hne
    exact absurd rfl hne
  | some value => exact (nesting_texts_le _).trans_lt (h (Option.some_ne_none value))

namespace NodeFields.Below

variable {id : String} {children : List Node}

theorem nesting_textFields (hf : f.Below readChild bound) :
    ∀ field ∈ Node.textFields ⟨id, f.attributes kind, children⟩, field.2.nesting < bound := by
  have hid : (Json.text id).nesting < bound := hf.pos
  have hempty : (∅ : NameSet).toList = [] := by simp
  have hmodifiers := nesting_slot_lt hempty hf.modifiers
  have hsupertypes := nesting_slot_lt hempty hf.supertypes
  have hlines := @nesting_slot_lt _ _ f.lines? [] (fun lines => lines) rfl hf.lines
  cases kind <;>
    simp only [Node.textFields, Node.attributeFields, Node.bodyField, attributes,
      List.forall_mem_append, List.forall_mem_cons, forall_mem_optionalField]
  case unit => exact ⟨⟨hid, List.forall_mem_nil _⟩, List.forall_mem_nil _⟩
  case type => exact ⟨⟨⟨hid, hmodifiers⟩, hsupertypes⟩, List.forall_mem_nil _⟩
  case function => exact ⟨⟨hid, hmodifiers⟩, hlines⟩
  case var => exact ⟨⟨⟨hid, hmodifiers⟩, hlines⟩, List.forall_mem_nil _⟩

theorem readFrom_of_make (hf : f.Below readChild j.nesting)
    (hchildren : children ⊆ f.children?.getD [])
    (h : Node.make id (f.attributes kind) children = .ok n) : n.ReadFrom readChild kind j := by
  have hmem {c : Node} := Node.mem_children_of_make (c := c) h
  obtain ⟨rfl, hwf⟩ := Node.make_eq_ok_iff.1 h
  refine ⟨hwf, ?_, hf.pos, hf.nesting_textFields, fun c hc => hf.children c (hchildren ?_)⟩
  · cases kind <;> rfl
  · exact hmem.1 hc

end NodeFields.Below

theorem readFrom_of_readVar (h : readVar j = .ok n) :
    n.ReadFrom (fun _ => .error .malformed) .var j := by
  obtain ⟨f, hf, h⟩ := bind_eq_ok_iff.1 h
  obtain ⟨id, -, h⟩ := bind_eq_ok_iff.1 h
  exact (NodeFields.Below.of_readRecord hf readVar_step).readFrom_of_make (List.nil_subset _)
    (construct_eq_ok_iff.1 h)

theorem readFrom_of_readFunction (h : readFunction j = .ok n) : n.ReadFrom readVar .function j := by
  obtain ⟨f, hf, h⟩ := bind_eq_ok_iff.1 h
  obtain ⟨id, -, h⟩ := bind_eq_ok_iff.1 h
  exact (NodeFields.Below.of_readRecord hf readFunction_step).readFrom_of_make (List.Subset.refl _)
    (construct_eq_ok_iff.1 h)

theorem readFrom_of_readType (h : readType readChild j = .ok n) :
    n.ReadFrom readChild .type j := by
  obtain ⟨f, hf, h⟩ := bind_eq_ok_iff.1 h
  obtain ⟨id, -, h⟩ := bind_eq_ok_iff.1 h
  exact (NodeFields.Below.of_readRecord hf readType_step).readFrom_of_make (List.Subset.refl _)
    (construct_eq_ok_iff.1 h)

theorem readFrom_of_readUnit (h : readUnit readChild j = .ok u) :
    u.toNode.ReadFrom readChild .unit j := by
  obtain ⟨f, hf, h⟩ := bind_eq_ok_iff.1 h
  obtain ⟨path, -, h⟩ := bind_eq_ok_iff.1 h
  exact (NodeFields.Below.of_readRecord hf readUnit_step).readFrom_of_make (List.Subset.refl _)
    (SourceUnit.make_eq_ok_iff.1 (construct_eq_ok_iff.1 h))

open Node (ReadsValid)

theorem readsValid_readVar : ReadsValid readVar :=
  fun _ _ h => (readFrom_of_readVar h).validWithin nofun

theorem readsValid_readFunction : ReadsValid readFunction :=
  fun _ _ h => (readFrom_of_readFunction h).validWithin readsValid_readVar

theorem readsValid_readType (hchild : ReadsValid readChild) : ReadsValid (readType readChild) :=
  fun _ _ h => (readFrom_of_readType h).validWithin hchild

/-- One level of types after the other. -/
theorem readsValid_readEntityWithin (depth : Nat) (place : Place) :
    ReadsValid (readEntityWithin depth place) := by
  induction depth generalizing place with
  | zero => exact nofun
  | succ depth ih =>
    intro j n h
    obtain ⟨-, h⟩ := check_bind_eq_ok_iff.1 h
    obtain ⟨⟨tag, record⟩, hsplit, h⟩ := bind_eq_ok_iff.1 h
    have hle := nesting_of_splitTag hsplit
    have hrecord : n.ValidWithin record.nesting := by
      match tag, h with
      | 0, h => exact readsValid_readType (ih .inner) record n h
      | 1, h => exact readsValid_readFunction record n h
      | _ + 2, h => exact readsValid_readVar record n h
    exact hrecord.mono hle

theorem readsValid_readNode (place : Place) : ReadsValid (readNode place) := by
  intro j n h
  obtain ⟨-, h⟩ := check_bind_eq_ok_iff.1 h
  obtain ⟨⟨tag, record⟩, hsplit, h⟩ := bind_eq_ok_iff.1 h
  have hle := nesting_of_splitTag hsplit
  have hentity := readsValid_readEntityWithin maxDepth .inner
  have hrecord : n.ValidWithin record.nesting := by
    match tag, h with
    | 0, h =>
      obtain ⟨u, hu, hn⟩ := bind_eq_ok_iff.1 h
      obtain rfl := pure_eq_ok_iff.1 hn
      exact (readFrom_of_readUnit hu).validWithin hentity
    | 1, h => exact readsValid_readType hentity record n h
    | 2, h => exact readsValid_readFunction record n h
    | _ + 3, h => exact readsValid_readVar record n h
  exact hrecord.mono hle

theorem nesting_le_of_check {depth : Nat} (h : (Place.outer depth).check j = .ok ()) :
    j.nesting ≤ maxDepth - depth := by
  rw [Place.check] at h
  split_ifs at h with hs
  exact Json.nesting_le_of_isSound hs

theorem validWithin_of_readEntity {depth : Nat} (h : readEntity (.outer depth) j = .ok n) :
    n.ValidWithin (maxDepth - depth) := by
  have hcheck : (Place.outer depth).check j = .ok () := (check_bind_eq_ok_iff.1 h).1
  exact (readsValid_readEntityWithin maxDepth _ j n h).mono (nesting_le_of_check hcheck)

theorem validWithin_of_readNode {depth : Nat} (h : readNode (.outer depth) j = .ok n) :
    n.ValidWithin (maxDepth - depth) := by
  have hcheck : (Place.outer depth).check j = .ok () := (check_bind_eq_ok_iff.1 h).1
  exact (readsValid_readNode _ j n h).mono (nesting_le_of_check hcheck)

/-- The record and the list around the children are the two levels that these are kept below. -/
theorem validWithin_of_readFrom (h : n.ReadFrom (readEntity (.outer 2)) kind j) :
    n.ValidWithin maxDepth := by
  refine .of_children h.wellFormed (by decide) (fun field hf => ?_) fun c hc => ?_
  · exact (n.nesting_textFields_le field hf).trans_lt (by decide)
  · obtain ⟨item, -, hread⟩ := h.children c hc
    exact ⟨maxDepth - 2, by decide, validWithin_of_readEntity hread⟩

theorem kind_of_readEntity {place : Place} (h : readEntity place j = .ok n) : n.kind ≠ .unit := by
  obtain ⟨-, h⟩ := check_bind_eq_ok_iff.1 h
  obtain ⟨⟨tag, record⟩, -, h⟩ := bind_eq_ok_iff.1 h
  match tag, h with
  | 0, h => rw [(readFrom_of_readType h).kind_eq]; nofun
  | 1, h => rw [(readFrom_of_readFunction h).kind_eq]; nofun
  | _ + 2, h => rw [(readFrom_of_readVar h).kind_eq]; nofun

end Codec

end SourceHistory
