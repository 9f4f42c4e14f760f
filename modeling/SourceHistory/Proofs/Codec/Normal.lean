import SourceHistory.Proofs.Codec.Decoded.Edit

namespace SourceHistory.Codec

variable {α : Type} {read : Json → Decoded α} {toJson : α → Json} {x : α}

/-- The stored text of `x` is decoded again, to a value that is equal to `x` and has the same stored
text. -/
def Settles (read : Json → Decoded α) (toJson : α → Json) (x : α) : Prop :=
  ∃ again, decode read (toJson x).compact = .ok again ∧ again = x ∧
    (toJson again).compact = (toJson x).compact

theorem settles_of_read (hplain : Json.Plain (toJson x)) (h : read (toJson x) = .ok x) :
    Settles read toJson x :=
  ⟨x, decode_compact hplain h, rfl, rfl⟩

/-- Every text that is decoded stands for a valid value, whose stored text settles it. -/
theorem decode_normalizes :
    (∀ text u, decode readWholeUnit text = .ok u →
      u.validate = .ok () ∧ Settles readWholeUnit SourceUnit.toJson u) ∧
    (∀ text n, decode readWholeType text = .ok n →
      n.validate = .ok () ∧ Settles readWholeType (Node.toJson false) n) ∧
    (∀ text n, decode readFunction text = .ok n →
      n.validate = .ok () ∧ Settles readFunction (Node.toJson false) n) ∧
    (∀ text n, decode readVar text = .ok n →
      n.validate = .ok () ∧ Settles readVar (Node.toJson false) n) ∧
    (∀ text n, decode (readEntity (.outer 0)) text = .ok n →
      n.validate = .ok () ∧ Settles (readEntity (.outer 0)) (Node.toJson true) n) ∧
    (∀ text n, decode (readNode (.outer 0)) text = .ok n →
      n.validate = .ok () ∧ Settles (readNode (.outer 0)) (Node.toJson true) n) ∧
    (∀ text e, decode (readEdit (.outer 0)) text = .ok e →
      (∀ node, e = .addNode node → node.validate = .ok ()) ∧
        Settles (readEdit (.outer 0)) Edit.toJson e) ∧
    (∀ text e, decode readSetEdit text = .ok e → Settles readSetEdit SetEdit.toJson e) ∧
    (∀ text e, decode readListEdit text = .ok e → Settles readListEdit ListEdit.toJson e) := by
  refine ⟨?unit, ?type, ?function, ?var, ?entity, ?node, ?edit, ?setEdit, ?listEdit⟩
  case unit =>
    intro text u h
    obtain ⟨j, hread⟩ := exists_of_decode h
    have hu := validWithin_of_readFrom (readFrom_of_readUnit hread)
    have hagain := readWholeUnit_toJson hu.validate (hu.nesting_le false)
    exact ⟨hu.validate, settles_of_read (u.toNode.plain_toJson false) hagain⟩
  case type =>
    intro text n h
    obtain ⟨j, hread⟩ := exists_of_decode h
    have hfrom := readFrom_of_readType hread
    have hn := validWithin_of_readFrom hfrom
    have hagain := readWholeType_toJson hn.validate hfrom.kind_eq (hn.nesting_le false)
    exact ⟨hn.validate, settles_of_read (n.plain_toJson false) hagain⟩
  case function =>
    intro text n h
    obtain ⟨j, hread⟩ := exists_of_decode h
    have hv := (readsValid_readFunction j n hread).validate
    have hagain := readFunction_toJson hv (readFrom_of_readFunction hread).kind_eq
    exact ⟨hv, settles_of_read (n.plain_toJson false) hagain⟩
  case var =>
    intro text n h
    obtain ⟨j, hread⟩ := exists_of_decode h
    have hv := (readsValid_readVar j n hread).validate
    have hagain := readVar_toJson hv (readFrom_of_readVar hread).kind_eq
    exact ⟨hv, settles_of_read (n.plain_toJson false) hagain⟩
  case entity =>
    intro text n h
    obtain ⟨j, hread⟩ := exists_of_decode h
    have hn := validWithin_of_readEntity hread
    have hplain := n.plain_toJson true
    have hagain := readEntityWithin_toJson hn.validate (kind_of_readEntity hread)
      (hn.nesting_le true) (check_outer hplain (hn.nesting_le true))
    exact ⟨hn.validate, settles_of_read hplain hagain⟩
  case node =>
    intro text n h
    obtain ⟨j, hread⟩ := exists_of_decode h
    have hn := validWithin_of_readNode hread
    have hplain := n.plain_toJson true
    have hagain := readNode_toJson hn.validate (hn.nesting_le true)
      (check_outer hplain (hn.nesting_le true))
    exact ⟨hn.validate, settles_of_read hplain hagain⟩
  case edit =>
    intro text e h
    obtain ⟨j, hread⟩ := exists_of_decode h
    have he := storableWithin_of_readEdit hread
    have hplain := he.plain_toJson
    have hroom : e.toJson.nesting ≤ maxDepth := he.nesting_le (by decide)
    refine ⟨?_, settles_of_read hplain (readEdit_toJson he.toStorable hroom
      (check_outer hplain hroom))⟩
    rintro node rfl
    exact he.check
  case setEdit =>
    intro text e _
    exact settles_of_read e.plain_toJson (readSetEdit_toJson e)
  case listEdit =>
    intro text e h
    obtain ⟨j, hread⟩ := exists_of_decode h
    have hindex := index_lt_of_readListEdit hread
    exact settles_of_read (ListEdit.plain_toJson hindex) (readListEdit_toJson hindex)

/-- Fields out of order and unknown ones, records and tagged values as arrays, tags by number, a set
with an element twice and needless escapes. -/
theorem decode_normalizes_of_spellings :
    let x : Node := ⟨"a:x", .var ∅ ["/"], []⟩
    let f : Node := ⟨"a:f(p)", .function ∅ [], [⟨"a:f(p):p", .var ∅ [], []⟩]⟩
    let t : Node := ⟨"a:T", .type ∅ ∅, [⟨"a:T:x", .var ∅ [], []⟩]⟩
    let u : SourceUnit := ⟨"a", [x]⟩
    let unitText := "\x7b\"entities\":[[\"variable\",\"a:x\",[],[\"\\/\"]]],\"path\":\"a\"\x7d"
    let typeText := "[\"a:T\",[],[],[[\"variable\",\"a:T:x\"]]]"
    let functionText := "[\"a:f(p)\",[],[[\"a:f(p):p\"]]]"
    let varText := "\x7b\"note\":[0.5],\"modifiers\":[\"b\",\"\\u0061\",\"b\"],\"id\":\"a:x\"\x7d"
    let varStored := "\x7b\"id\":\"a:x\",\"modifiers\":[\"a\",\"b\"]\x7d"
    let nodeText := "\x7b\"initializer\":[\"/\"],\"id\":\"a:x\",\"kind\":\"variable\"\x7d"
    let editText := "[\"add_node\",[3,\"a:x\",[],[\"/\"]]]"
    let setEditText := "\x7b\"add\":\"\\u0061\"\x7d"
    let listEditText := "\x7b\"add\":\x7b\"value\":\"b\",\"index\":1\x7d\x7d"
    (decode readWholeUnit unitText = .ok u ∧
      u.validate = .ok () ∧ Settles readWholeUnit SourceUnit.toJson u) ∧
    (decode readWholeType typeText = .ok t ∧
      t.validate = .ok () ∧ Settles readWholeType (Node.toJson false) t) ∧
    (decode readFunction functionText = .ok f ∧
      f.validate = .ok () ∧ Settles readFunction (Node.toJson false) f) ∧
    (∃ v, decode readVar varText = .ok v ∧ (v.toJson false).compact = varStored ∧
      v.validate = .ok () ∧ Settles readVar (Node.toJson false) v) ∧
    (decode (readEntity (.outer 0)) nodeText = .ok x ∧
      x.validate = .ok () ∧ Settles (readEntity (.outer 0)) (Node.toJson true) x) ∧
    (decode (readNode (.outer 0)) nodeText = .ok x ∧
      x.validate = .ok () ∧ Settles (readNode (.outer 0)) (Node.toJson true) x) ∧
    (decode (readEdit (.outer 0)) editText = .ok (.addNode x) ∧
      Settles (readEdit (.outer 0)) Edit.toJson (.addNode x)) ∧
    (decode readSetEdit setEditText = .ok (.add "a") ∧
      Settles readSetEdit SetEdit.toJson (.add "a")) ∧
    (decode readListEdit listEditText = .ok (.add 1 "b") ∧
      Settles readListEdit ListEdit.toJson (.add 1 "b")) := by
  intro x f t u unitText typeText functionText varText varStored nodeText editText setEditText
    listEditText
  obtain ⟨hunit, htype, hfunction, hvar, hentity, hnode, hedit, hset, hlist⟩ := decode_normalizes
  have hu : decode readWholeUnit unitText = .ok u := by decide +kernel
  have ht : decode readWholeType typeText = .ok t := by decide +kernel
  have hf : decode readFunction functionText = .ok f := by decide +kernel
  -- sets are compared by their text, which can be computed
  have hstored : (decode readVar varText).map (fun v => (v.toJson false).compact) =
      .ok varStored := by
    decide +kernel
  obtain ⟨v, hv, hcompact⟩ := map_eq_ok_iff.1 hstored
  have he : decode (readEntity (.outer 0)) nodeText = .ok x := by decide +kernel
  have hn : decode (readNode (.outer 0)) nodeText = .ok x := by decide +kernel
  have ha : decode (readEdit (.outer 0)) editText = .ok (.addNode x) := by decide +kernel
  have hs : decode readSetEdit setEditText = .ok (.add "a") := by decide +kernel
  have hl : decode readListEdit listEditText = .ok (.add 1 "b") := by decide +kernel
  exact ⟨⟨hu, hunit unitText u hu⟩, ⟨ht, htype typeText t ht⟩,
    ⟨hf, hfunction functionText f hf⟩, ⟨v, hv, hcompact, hvar varText v hv⟩,
    ⟨he, hentity nodeText x he⟩, ⟨hn, hnode nodeText x hn⟩,
    ⟨ha, (hedit editText (.addNode x) ha).2⟩, ⟨hs, hset setEditText (.add "a") hs⟩,
    ⟨hl, hlist listEditText (.add 1 "b") hl⟩⟩

end SourceHistory.Codec
