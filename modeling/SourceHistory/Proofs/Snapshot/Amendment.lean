import SourceHistory.Proofs.Diff.Attributes
import SourceHistory.Proofs.Node.Constructed
import SourceHistory.Proofs.Snapshot.Reachable

namespace SourceHistory

variable {before after n r : Node} {e : Edit} {s : Snapshot}

theorem attributeEdit?_of_mismatch (h : before.id ≠ after.id ∨ before.kind ≠ after.kind) :
    attributeEdit? before after = .error (.idMismatch before.id after.id) := by
  simp only [attributeEdit?, if_pos h]

theorem attributeEdit?_eq_error_iff (hb : before.WellFormed) (ha : after.WellFormed) {error : Error} :
    attributeEdit? before after = .error error ↔
      (before.id ≠ after.id ∨ before.kind ≠ after.kind) ∧
        error = .idMismatch before.id after.id := by
  by_cases h : before.id ≠ after.id ∨ before.kind ≠ after.kind
  · rw [attributeEdit?_of_mismatch h, Except.error.injEq, eq_comm]
    exact ⟨fun he => ⟨h, he⟩, fun he => he.2⟩
  · obtain ⟨hid, hkind⟩ := not_or.1 h
    rw [attributeEdit?_eq (not_not.1 hid) (not_not.1 hkind) hb ha]
    exact ⟨nofun, fun he => absurd he.1 h⟩

theorem Node.attributes_of_kind_unit (h : n.kind = .unit) : n.attributes = .unit := by
  obtain ⟨u, rfl⟩ := SourceUnit.exists_eq_toNode h
  rfl

theorem attributeEdit?_eq_none_iff (hb : before.WellFormed) (ha : after.WellFormed)
    (hid : before.id = after.id) (hkind : before.kind = after.kind) :
    attributeEdit? before after = .ok none ↔
      before.kind = .unit ∨ before.attributes = after.attributes ∧
        (before.kind = .function → before.childNames = after.childNames) := by
  rw [attributeEdit?_eq hid hkind hb ha, Except.ok.injEq, Node.amendment?_eq_none_iff hkind,
    hb.childNames_eq_iff ha hid]
  constructor
  · exact Or.inr
  · intro hsame
    rcases hsame with hunit | hsame
    · refine ⟨?_, fun hf => ?_⟩
      · rw [Node.attributes_of_kind_unit hunit, Node.attributes_of_kind_unit (hkind ▸ hunit)]
      · rw [hunit] at hf
        cases hf
    · exact hsame

theorem amendment?_of_attributeEdit? (hb : before.WellFormed) (ha : after.WellFormed)
    (h : attributeEdit? before after = .ok (some e)) :
    before.amendment? before.childIds after = some e := by
  by_cases hmis : before.id ≠ after.id ∨ before.kind ≠ after.kind
  · rw [attributeEdit?_of_mismatch hmis] at h
    cases h
  · obtain ⟨hid, hkind⟩ := not_or.1 hmis
    rw [attributeEdit?_eq (not_not.1 hid) (not_not.1 hkind) hb ha] at h
    exact Except.ok.inj h

/-- Where an entry can be revised, the snapshot takes the edit and then holds the revision. -/
theorem Snapshot.Coherent.exists_apply_of_revise (h : s.Coherent) (he : e.isAttributeEdit = true)
    (hc : e.check = .ok ()) (hx : s.index[e.id]? = some n) (hr : Edit.revise s.index n e = .ok r) :
    ∃ t, s.apply e = .done t ∧ t.Coherent ∧ t.index[e.id]? = some r := by
  have hstage := (Edit.stage_attributeEdit_eq_ok_iff h.index he).2 ⟨n, r, hx, hr, rfl⟩
  have hid : r.id = e.id := (Edit.id_kind_of_revise he hr).1.trans (h.index.id_eq hx)
  rcases h.apply_stages hc with ⟨error, hs, -⟩ | ⟨staged, t, hs, hdone, happly, ht⟩
  · rw [hstage] at hs
    cases hs
  · obtain rfl : NodeIndex.replace s.index r = staged := Except.ok.inj (hstage.symm.trans hs)
    refine ⟨t, happly, ht, ?_⟩
    rw [NodeIndex.getElem?_of_rebuildAncestors_eq_done hdone, NodeIndex.replace,
      NameMap.getElem?_insert, if_pos hid]

/-- Two versions of a node are refused if and only if their ids or kinds differ, and there is nothing
to edit if and only if they are units or agree in what they say about themselves. An edit between
them goes through on every snapshot that holds the older version, functions with the same set of
parameter names provided, and leaves a node with the attributes and the order of parameters of the
newer version and the children of the older one. -/
theorem attributeEdit?_exact (hb : before.Constructed) (ha : after.Constructed) :
    ((∃ error, attributeEdit? before after = .error error) ↔
      before.id ≠ after.id ∨ before.kind ≠ after.kind) ∧
    (∀ error, attributeEdit? before after = .error error → error.isArgument = true) ∧
    (before.id = after.id → before.kind = after.kind →
      (attributeEdit? before after = .ok none ↔
        before.kind = .unit ∨ before.attributes = after.attributes ∧
          (before.kind = .function → before.childNames = after.childNames))) ∧
    ∀ (e : Edit) (s : Snapshot), attributeEdit? before after = .ok (some e) → s.Reachable →
      s.index[before.id]? = some before →
      (before.kind = .function → ∀ name, name ∈ before.childNames ↔ name ∈ after.childNames) →
      e.check = .ok () ∧ ∃ t node, s.apply e = .done t ∧ t.index[before.id]? = some node ∧
        node.attributes = after.attributes ∧
        (before.kind = .function → node.childNames = after.childNames) ∧
        (before.kind ≠ .function → node.children = before.children) ∧
        node.children.Perm before.children ∧
        ∀ c ∈ before.children, t.index[c.id]? = some c := by
  have hbw := (Node.validate_eq_ok_iff_children.1 (Node.constructed_iff.1 hb)).1
  have haw := (Node.validate_eq_ok_iff_children.1 (Node.constructed_iff.1 ha)).1
  refine ⟨?_, ?_, attributeEdit?_eq_none_iff hbw haw, ?_⟩
  · simp [attributeEdit?_eq_error_iff hbw haw]
  · intro error herr
    rw [((attributeEdit?_eq_error_iff hbw haw).1 herr).2]
    rfl
  · intro e s hedit hs hx hnames
    have hamend := amendment?_of_attributeEdit? hbw haw hedit
    have heid := Node.id_of_amendment? hamend
    -- The names of parameters are distinct, so equal sets of them are permutations.
    have hperm : before.kind = .function → after.childNames.Perm before.childNames := by
      intro hf
      rw [List.perm_ext_iff_of_nodup haw.nodup_childNames hbw.nodup_childNames]
      exact fun name => (hnames hf name).symm
    obtain ⟨hattr, hc, r, hr, hra, hrperm, hfun, hmember⟩ :=
      NodeIndex.exists_revise_of_amendment? hs.coherent.index hx hamend hperm
    obtain ⟨t, happly, ht, hrt⟩ :=
      hs.coherent.exists_apply_of_revise hattr hc (heid.symm ▸ hx) hr
    refine ⟨hc, t, r, happly, heid ▸ hrt, hra, hfun, hmember, hrperm, fun c hc => ?_⟩
    exact ht.index.child hrt (hrperm.mem_iff.2 hc)

/-- Two parameters change places and the body grows. -/
theorem attributeEdit?_exact_of_swap :
    let x : Node := ⟨"a:f():x", .var ∅ ["1"], []⟩
    let y : Node := ⟨"a:f():y", .var ∅ [], []⟩
    let before : Node := ⟨"a:f()", .function ∅ [], [x, y]⟩
    let after : Node := ⟨"a:f()", .function ∅ ["return"], [⟨"a:f():y", .var ∅ ["2"], []⟩, x]⟩
    let s := (Snapshot.empty.apply (.addNode ⟨"a", .unit, [before]⟩)).state
    ∃ e t node, attributeEdit? before after = .ok (some e) ∧ s.apply e = .done t ∧
      t.index["a:f()"]? = some node ∧ node.attributes = .function ∅ ["return"] ∧
      node.childNames = ["y", "x"] ∧ t.index["a:f():y"]? = some y := by
  intro x y before after s
  have hb : before.Constructed := Node.constructed_iff.2 (by decide +kernel)
  have ha : after.Constructed := Node.constructed_iff.2 (by decide +kernel)
  have hs : s.Reachable := .apply .empty (by decide +kernel)
  have hx : s.index[before.id]? = some before := by decide +kernel
  have hedit : attributeEdit? before after =
      .ok (some (.editFunction "a:f()" [] [.remove 1, .add 0 "y"] [.add 0 "return"])) := by
    decide +kernel
  have hnames : before.kind = .function →
      ∀ name, name ∈ before.childNames ↔ name ∈ after.childNames := by
    intro _ name
    have hbn : before.childNames = ["x", "y"] := by decide +kernel
    have han : after.childNames = ["y", "x"] := by decide +kernel
    simp [hbn, han, or_comm]
  obtain ⟨-, t, node, happly, hnode, hattr, hfun, -, -, hchildren⟩ :=
    (attributeEdit?_exact hb ha).2.2.2 _ s hedit hs hx hnames
  exact ⟨_, t, node, hedit, happly, hnode, hattr, (hfun rfl).trans (by decide +kernel),
    hchildren y (by simp [before])⟩

end SourceHistory
