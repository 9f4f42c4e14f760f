import SourceHistory.Codec.Node
import SourceHistory.Proofs.Codec.Basic
import SourceHistory.Proofs.Node.Child
import SourceHistory.Proofs.Node.Constructed

namespace SourceHistory

open Json (keyed Plain)

namespace Node

variable {n c : Node} {tagged : Bool} {room : Nat}

theorem toJsonList_eq_map (tagged : Bool) (ns : List Node) :
    toJsonList tagged ns = ns.map (toJson tagged) := by
  induction ns with
  | nil => rfl
  | cons n ns ih => rw [toJsonList, ih, List.map_cons]

/-- The documents of the children; only parameters are not tagged. -/
def childDocuments (n : Node) : List Json := n.children.map (toJson (n.kind ≠ .function))

def ownFields (n : Node) : List (String × Json) :=
  attributeFields n.id n.attributes ++
    (Codec.optionalField (childField n.kind) n.childDocuments ++ bodyField n.attributes)

theorem toJson_eq (tagged : Bool) (n : Node) :
    n.toJson tagged =
      .record ((if tagged then [("kind", .text n.kind.name)] else []) ++ n.ownFields) := by
  obtain ⟨id, attributes, children⟩ := n
  rw [toJson, toJsonList_eq_map, List.append_assoc, List.append_assoc]
  cases attributes <;> rfl

theorem toJson_false (n : Node) : n.toJson false = .record n.ownFields := toJson_eq false n

section Fields

variable (id : String) (modifiers : NameSet) (children : List Node)

theorem ownFields_unit (u : SourceUnit) :
    u.toNode.ownFields = ("path", .text u.path) ::
      (Codec.optionalField "entities" (u.entities.map (toJson true)) ++ []) := rfl

theorem ownFields_type (supertypes : NameSet) :
    ownFields ⟨id, .type modifiers supertypes, children⟩ = ("id", .text id) ::
      (Codec.optionalField "modifiers" (modifiers.toList.map Json.text) ++
        (Codec.optionalField "supertypes" (supertypes.toList.map Json.text) ++
          (Codec.optionalField "members" (children.map (toJson true)) ++ []))) := by
  rw [← List.append_assoc]
  rfl

theorem ownFields_function (body : List String) :
    ownFields ⟨id, .function modifiers body, children⟩ = ("id", .text id) ::
      (Codec.optionalField "modifiers" (modifiers.toList.map Json.text) ++
        (Codec.optionalField "parameters" (children.map (toJson false)) ++
          (Codec.optionalField "body" (body.map Json.text) ++ []))) := by
  rw [List.append_nil]
  rfl

theorem ownFields_var (initializer : List String) :
    ownFields ⟨id, .var modifiers initializer, []⟩ = ("id", .text id) ::
      (Codec.optionalField "modifiers" (modifiers.toList.map Json.text) ++
        (Codec.optionalField "initializer" (initializer.map Json.text) ++ [])) := by
  rw [← List.append_assoc]
  rfl

end Fields

theorem key_ne_kind (n : Node) : ∀ field ∈ n.ownFields, field.1 ≠ "kind" := by
  obtain ⟨id, attributes, children⟩ := n
  cases attributes <;>
    simp only [ownFields, attributeFields, bodyField, childField, kind, Attributes.kind,
      List.forall_mem_append, List.forall_mem_cons, Codec.forall_mem_optionalField] <;>
    simp

theorem plain_ownFields (h : Plain (.array n.childDocuments)) :
    ∀ field ∈ n.ownFields, Plain field.2 := by
  obtain ⟨id, attributes, children⟩ := n
  cases attributes <;>
    simp only [ownFields, attributeFields, bodyField, List.forall_mem_append, List.forall_mem_cons,
      Codec.forall_mem_optionalField] <;>
    simp [Codec.plain_texts, Plain.text, h]

theorem plain_toJson (tagged : Bool) (n : Node) : Plain (n.toJson tagged) := by
  induction n using children_induction generalizing tagged with
  | node n ih =>
    have hown := plain_ownFields (Codec.plain_array_map fun c hc => ih c hc (n.kind ≠ .function))
    rw [toJson_eq]
    apply Plain.record
    cases tagged with
    | false => exact hown
    | true => exact List.forall_mem_cons.2 ⟨Plain.text _, hown⟩

theorem childDocuments_mem_ownFields (h : n.children ≠ []) :
    (childField n.kind, .array n.childDocuments) ∈ n.ownFields := by
  simp [ownFields, Codec.optionalField, childDocuments, h]

theorem nesting_child_le (hc : c ∈ n.children) (h : (n.toJson tagged).nesting ≤ room) :
    1 < room ∧ (c.toJson (n.kind ≠ .function)).nesting ≤ room - 2 := by
  have hmem := childDocuments_mem_ownFields (List.ne_nil_of_mem hc)
  rw [toJson_eq] at h
  obtain ⟨-, hfields⟩ := Json.nesting_record_le_iff.1 h
  have harray := hfields _ (List.mem_append_right _ hmem)
  obtain ⟨hpos, hitems⟩ := Json.nesting_array_le_iff.1 harray
  exact ⟨by omega, hitems _ (List.mem_map_of_mem hc)⟩

theorem nesting_pos (n : Node) (tagged : Bool) : 0 < (n.toJson tagged).nesting := by
  rw [toJson_eq, Json.record_eq, Json.nesting]
  omega

end Node

namespace Codec

variable {n : Node} {u : SourceUnit}

theorem splitTag_toJson {tags : List String} {i : Nat} (place : Place)
    (htag : tags.idxOf? n.kind.name = some i) :
    splitTag place "kind" tags (n.toJson true) = .ok (i, n.toJson false) := by
  rw [Node.toJson_eq, Node.toJson_eq]
  exact splitTag_record place htag n.key_ne_kind

theorem readVar_toJson (hv : n.validate = .ok ()) (hkind : n.kind = .var) :
    readVar (n.toJson false) = .ok n := by
  obtain ⟨hn, -⟩ := Node.validate_eq_ok_iff_children.1 hv
  have hmake := hn.make_eq
  have hleaf := hn.children_of_var hkind
  obtain ⟨id, attributes, children⟩ := n
  obtain rfl : children = [] := hleaf
  cases attributes with
  | var modifiers initializer =>
    rw [readVar, Node.toJson_false, readRecord_record, Node.ownFields_var,
      readFields_field _ "id" (NodeFields.mk · none none none none) (readText_text id) rfl,
      readFields_optionalField _ "modifiers" (NodeFields.mk (some id) · none none none)
        (readNames_map modifiers) rfl,
      readFields_optionalField _ "initializer"
        (NodeFields.mk (some id) (slot modifiers.toList modifiers) none · none)
        (readTexts_map initializer) rfl]
    change construct (Node.var id ((slot _ modifiers).getD ∅) ((slot _ initializer).getD [])) = _
    rw [getD_slot_toList, getD_slot_self]
    exact construct_eq_ok_iff.2 hmake
  | _ => cases hkind

theorem readFunction_toJson (hv : n.validate = .ok ()) (hkind : n.kind = .function) :
    readFunction (n.toJson false) = .ok n := by
  obtain ⟨hn, hchildren⟩ := Node.validate_eq_ok_iff_children.1 hv
  have hparameters : ∀ c ∈ n.children, readVar (c.toJson false) = .ok c := by
    intro c hc
    have hfits := hn.fits c hc
    rw [hkind] at hfits
    exact readVar_toJson (hchildren c hc) (of_decide_eq_true hfits)
  have hmake := hn.make_eq
  obtain ⟨id, attributes, children⟩ := n
  cases attributes with
  | function modifiers body =>
    rw [readFunction, Node.toJson_false, readRecord_record, Node.ownFields_function,
      readFields_field _ "id" (NodeFields.mk · none none none none) (readText_text id) rfl,
      readFields_optionalField _ "modifiers" (NodeFields.mk (some id) · none none none)
        (readNames_map modifiers) rfl,
      readFields_optionalField _ "parameters"
        (NodeFields.mk (some id) (slot modifiers.toList modifiers) none none ·)
        (readItems_map hparameters) rfl,
      readFields_optionalField _ "body"
        (NodeFields.mk (some id) (slot modifiers.toList modifiers) none · (slot children children))
        (readTexts_map body) rfl]
    change construct (Node.function id ((slot _ modifiers).getD ∅) ((slot _ children).getD [])
      ((slot _ body).getD [])) = _
    rw [getD_slot_toList, getD_slot_self, getD_slot_self]
    exact construct_eq_ok_iff.2 hmake
  | _ => cases hkind

theorem readType_toJson {readChild : Json → Decoded Node} (hn : n.WellFormed)
    (hkind : n.kind = .type) (hmembers : ∀ c ∈ n.children, readChild (c.toJson true) = .ok c) :
    readType readChild (n.toJson false) = .ok n := by
  have hmake := hn.make_eq
  obtain ⟨id, attributes, children⟩ := n
  cases attributes with
  | type modifiers supertypes =>
    rw [readType, Node.toJson_false, readRecord_record, Node.ownFields_type,
      readFields_field _ "id" (NodeFields.mk · none none none none) (readText_text id) rfl,
      readFields_optionalField _ "modifiers" (NodeFields.mk (some id) · none none none)
        (readNames_map modifiers) rfl,
      readFields_optionalField _ "supertypes"
        (NodeFields.mk (some id) (slot modifiers.toList modifiers) · none none)
        (readNames_map supertypes) rfl,
      readFields_optionalField _ "members"
        (NodeFields.mk (some id) (slot modifiers.toList modifiers)
          (slot supertypes.toList supertypes) none ·)
        (readItems_map hmembers) rfl]
    change construct (Node.type id ((slot _ modifiers).getD ∅) ((slot _ supertypes).getD ∅)
      ((slot _ children).getD [])) = _
    rw [getD_slot_toList, getD_slot_toList, getD_slot_self]
    exact construct_eq_ok_iff.2 hmake
  | _ => cases hkind

theorem readUnit_toJson {readChild : Json → Decoded Node} (hu : u.toNode.WellFormed)
    (hentities : ∀ c ∈ u.entities, readChild (c.toJson true) = .ok c) :
    readUnit readChild u.toJson = .ok u := by
  rw [readUnit, SourceUnit.toJson, Node.toJson_false, readRecord_record, Node.ownFields_unit,
    readFields_field _ "path" (NodeFields.mk · none none none none) (readText_text u.path) rfl,
    readFields_optionalField _ "entities" (NodeFields.mk (some u.path) none none none ·)
      (readItems_map hentities) rfl]
  change construct (SourceUnit.make u.path ((slot _ u.entities).getD [])) = _
  rw [getD_slot_self]
  exact construct_eq_ok_iff.2 (SourceUnit.make_eq_ok_iff.2 hu.make_eq)

theorem readEntityWithin_toJson {depth : Nat} {place : Place} (hv : n.validate = .ok ())
    (hkind : n.kind ≠ .unit) (hdepth : (n.toJson true).nesting ≤ depth)
    (hcheck : place.check (n.toJson true) = .ok ()) :
    readEntityWithin depth place (n.toJson true) = .ok n := by
  -- each level of types costs the reader one of `depth` and the text two open brackets
  induction n using Node.children_induction generalizing depth place with
  | node n ih =>
    obtain ⟨hn, hchildren⟩ := Node.validate_eq_ok_iff_children.1 hv
    have hpos := n.nesting_pos true
    obtain ⟨depth, rfl⟩ : ∃ below, depth = below + 1 := ⟨depth - 1, by omega⟩
    have hsplit : ∀ {i : Nat}, ["type", "function", "variable"].idxOf? n.kind.name = some i →
        splitTag place "kind" ["type", "function", "variable"] (n.toJson true) =
          .ok (i, n.toJson false) := splitTag_toJson place
    cases hk : n.kind with
    | unit => exact absurd hk hkind
    | type =>
      have hmembers : ∀ c ∈ n.children,
          readEntityWithin depth .inner (c.toJson true) = .ok c := by
        intro c hc
        have hfits := hn.fits c hc
        obtain ⟨-, hnesting⟩ := Node.nesting_child_le hc hdepth
        rw [hk] at hfits hnesting
        exact ih c hc (hchildren c hc) (of_decide_eq_true hfits) (hnesting.trans (by omega)) rfl
      simp only [readEntityWithin, hcheck, hsplit (i := 0) (by rw [hk]; rfl)]
      exact readType_toJson hn hk hmembers
    | function =>
      simp only [readEntityWithin, hcheck, hsplit (i := 1) (by rw [hk]; rfl)]
      exact readFunction_toJson hv hk
    | var =>
      simp only [readEntityWithin, hcheck, hsplit (i := 2) (by rw [hk]; rfl)]
      exact readVar_toJson hv hk

theorem readEntity_of_mem_children {place : Place} {tagged : Bool} {c : Node}
    (hv : n.validate = .ok ()) (hsorted : n.kind.isSorted = true)
    (hroom : (n.toJson tagged).nesting ≤ maxDepth) (hplace : place = .inner ∨ place = .outer 2)
    (hc : c ∈ n.children) : readEntity place (c.toJson true) = .ok c := by
  obtain ⟨hn, hchildren⟩ := Node.validate_eq_ok_iff_children.1 hv
  have hfits := hn.fits c hc
  obtain ⟨-, hnesting⟩ := Node.nesting_child_le hc hroom
  have hcases : n.kind = .unit ∨ n.kind = .type := by
    cases hk : n.kind <;> rw [hk] at hsorted <;> simp_all [Kind.isSorted]
  have hentity : c.kind ≠ .unit := by
    rcases hcases with hk | hk <;> rw [hk] at hfits <;> exact of_decide_eq_true hfits
  have hdepth : (c.toJson true).nesting ≤ maxDepth - 2 := by
    rcases hcases with hk | hk <;> rw [hk] at hnesting <;> exact hnesting
  apply readEntityWithin_toJson (hchildren c hc) hentity (hdepth.trans (Nat.sub_le _ _))
  rcases hplace with rfl | rfl
  · rfl
  · exact check_outer (c.plain_toJson true) hdepth

theorem readNode_toJson {place : Place} (hv : n.validate = .ok ())
    (hroom : (n.toJson true).nesting ≤ maxDepth) (hcheck : place.check (n.toJson true) = .ok ()) :
    readNode place (n.toJson true) = .ok n := by
  obtain ⟨hn, -⟩ := Node.validate_eq_ok_iff_children.1 hv
  have hsplit : ∀ {i : Nat}, ["unit", "type", "function", "variable"].idxOf? n.kind.name = some i →
      splitTag place "kind" ["unit", "type", "function", "variable"] (n.toJson true) =
        .ok (i, n.toJson false) := splitTag_toJson place
  have hchildren : n.kind.isSorted = true → ∀ c ∈ n.children,
      readEntity .inner (c.toJson true) = .ok c :=
    fun hsorted c hc => readEntity_of_mem_children hv hsorted hroom (Or.inl rfl) hc
  cases hk : n.kind with
  | unit =>
    have hentities := hchildren (by rw [hk]; rfl)
    simp only [readNode, hcheck, hsplit (i := 0) (by rw [hk]; rfl)]
    obtain ⟨id, attributes, children⟩ := n
    cases attributes with
    | unit =>
      have hunit : readUnit (readEntity .inner) (SourceUnit.toJson ⟨id, children⟩) =
          .ok ⟨id, children⟩ := readUnit_toJson hn hentities
      change (readUnit (readEntity .inner) (SourceUnit.toJson ⟨id, children⟩) >>= _) = _
      rw [hunit]
      rfl
    | _ => cases hk
  | type =>
    simp only [readNode, hcheck, hsplit (i := 1) (by rw [hk]; rfl)]
    exact readType_toJson hn hk (hchildren (by rw [hk]; rfl))
  | function =>
    simp only [readNode, hcheck, hsplit (i := 2) (by rw [hk]; rfl)]
    exact readFunction_toJson hv hk
  | var =>
    simp only [readNode, hcheck, hsplit (i := 3) (by rw [hk]; rfl)]
    exact readVar_toJson hv hk

theorem readWholeUnit_toJson (hv : u.validate = .ok ()) (hroom : u.toJson.nesting ≤ maxDepth) :
    readWholeUnit u.toJson = .ok u := by
  obtain ⟨hn, -⟩ := Node.validate_eq_ok_iff_children.1 hv
  exact readUnit_toJson hn fun c hc => readEntity_of_mem_children hv rfl hroom (Or.inr rfl) hc

theorem readWholeType_toJson (hv : n.validate = .ok ()) (hkind : n.kind = .type)
    (hroom : (n.toJson false).nesting ≤ maxDepth) : readWholeType (n.toJson false) = .ok n := by
  obtain ⟨hn, -⟩ := Node.validate_eq_ok_iff_children.1 hv
  have hsorted : n.kind.isSorted = true := by
    rw [hkind]
    rfl
  exact readType_toJson hn hkind fun c hc =>
    readEntity_of_mem_children hv hsorted hroom (Or.inr rfl) hc

end Codec

end SourceHistory
