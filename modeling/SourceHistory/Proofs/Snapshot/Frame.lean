import SourceHistory.Proofs.Snapshot.Acceptance

namespace SourceHistory

open SourceHistory.Id (Within)

variable {index staged rebuilt : NodeIndex} {p : String} {e : Edit} {s t : Snapshot}

/-- An ancestor keeps its attributes, and all children that do not lead to the node keep their values
and their order. -/
theorem Edit.exists_ancestor_of_done (h : index.Consistent) (hc : e.check = .ok ())
    (hs : stage index e = .ok staged) (hdone : NodeIndex.rebuildAncestors staged e.id = .done rebuilt)
    (hcons : rebuilt.Consistent) (hp : p ∈ Id.ancestors e.id) :
    ∃ n m, index[p]? = some n ∧ rebuilt[p]? = some m ∧ m.attributes = n.attributes ∧
      (m.children.filter fun c => ¬ Within e.id c.id) =
        n.children.filter fun c => ¬ Within e.id c.id := by
  obtain ⟨c, hw, hcp⟩ := Id.exists_within_of_mem_ancestors hp
  obtain ⟨n, hn, hm, -⟩ := NodeIndex.exists_withCurrent_of_done hdone hw hcp
  rw [getElem?_stage_of_not_within h.toSound hc hs (Id.not_within_of_mem_ancestors hp)] at hn
  refine ⟨n, _, hn, hm, rfl, Node.filter_updatedChildren (fun d hd => ?_) (fun d _ hd => ?_)⟩
  · rw [hcons.id_eq hd]
    simp [hw]
  · rw [hd]
    simp [hw]

/-- An edit changes no entry but at its node, within it and above it; the ancestors keep their
attributes and their other children, and the other units stay as they are. An edit of attributes
neither adds nor drops an id and leaves alone what is below its node. -/
theorem Snapshot.apply_frame (h : s.Reachable) (hc : e.check = .ok ())
    (happly : s.apply e = .done t) :
    (∀ k, ¬ Within k e.id → k ∉ Id.ancestors e.id → t.index[k]? = s.index[k]?) ∧
    (∀ p ∈ Id.ancestors e.id, ∃ n m, s.index[p]? = some n ∧ t.index[p]? = some m ∧
      m.attributes = n.attributes ∧
      (m.children.filter fun c => ¬ Within e.id c.id) =
        n.children.filter fun c => ¬ Within e.id c.id) ∧
    (∀ path, path ≠ e.sourcePath → t.units[path]? = s.units[path]?) ∧
    (e.isAttributeEdit = true → (∀ k, t.index.contains k = s.index.contains k) ∧
      ∀ k, Within k e.id → k ≠ e.id → t.index[k]? = s.index[k]?) := by
  have hs := h.coherent
  obtain ⟨staged, hstage, hdone, happlyTo, ht⟩ := hs.exists_stage_of_apply_eq_done hc happly
  have hstate : (e.applyTo s.index).state = t.index := congrArg Attempt.state happlyTo
  refine ⟨?_, ?_, ?_, ?_⟩
  · intro k hw ha
    rw [← hstate, Edit.getElem?_applyTo_of_unrelated hs.index.toSound hc hw ha]
  · intro p hp
    exact Edit.exists_ancestor_of_done hs.index hc hstage hdone ht.index hp
  · intro path hpath
    have hunits := hs.units_apply_of_ne hc hpath
    rwa [happly] at hunits
  · intro he
    refine ⟨fun k => ?_, fun k hw hk => ?_⟩
    · rw [← hstate, Edit.contains_applyTo hs.index he]
    · rw [← hstate, Edit.getElem?_applyTo_of_below hs.index he hw hk]

/-- A removed variable leaves a sibling alone whose id goes on where its own stops. -/
theorem Snapshot.apply_frame_of_removeNode :
    let s := (Snapshot.empty.apply (.addNode
      ⟨"a", .unit, [⟨"a:x", .var ∅ [], []⟩, ⟨"a:xy", .var ∅ [], []⟩]⟩)).state
    ∃ t, s.apply (.removeNode "a:x") = .done t ∧
      t.index["a:xy"]? = some ⟨"a:xy", .var ∅ [], []⟩ := by
  intro s
  have hs : s.Reachable := .apply .empty (by decide +kernel)
  have hc : (Edit.removeNode "a:x").check = .ok () := rfl
  have hx : s.index.contains "a:x" = true := by decide +kernel
  have happly := Attempt.eq_done_of_succeeded ((hs.coherent.succeeded_apply_iff hc).2 hx)
  have hy : s.index["a:xy"]? = some ⟨"a:xy", .var ∅ [], []⟩ := by decide +kernel
  have hunit : Id.parent? "a" = none := by decide +kernel
  have hxa : Id.parent? "a:x" = some "a" := by decide +kernel
  have hya : Id.parent? "a:xy" = some "a" := by decide +kernel
  have hw : ¬ Within "a:xy" "a:x" := by
    rw [Id.within_iff_of_parent?_some hya, Id.within_iff_of_parent?_none hunit]
    decide
  have ha : "a:xy" ∉ Id.ancestors "a:x" := by
    rw [Id.ancestors_of_parent?_some hxa, Id.ancestors_of_parent?_none hunit]
    decide
  exact ⟨_, happly, ((apply_frame hs hc happly).1 "a:xy" hw ha).trans hy⟩

end SourceHistory
