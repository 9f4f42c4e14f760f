import SourceHistory.Diff
import SourceHistory.Proofs.Edit.Apply

namespace SourceHistory.NodeIndex

open SourceHistory.Id (Within)

variable {index other staged result : NodeIndex} {x k : String} {n r : Node} {e : Edit}

theorem exists_advance_of_stage (h : index.Consistent) (hc : e.check = .ok ())
    (hs : Edit.stage index e = .ok staged) :
    ∃ result, advance index e = .ok result ∧ result.Consistent ∧ staged.ConsistentExcept e.id ∧
      staged.LabelsAfterRebuild result e.id := by
  rcases Edit.applyTo_cases h hc with ⟨error, herr, -⟩ | ⟨staged', result, hs', hgap, hdone, hcons, hl⟩
  · rw [hs] at herr
    cases herr
  · rw [hs, Except.ok.injEq] at hs'
    subst hs'
    refine ⟨result, ?_, hcons, hgap, hl⟩
    rw [advance, hc, hdone]
    rfl

/-- `result` is `index` with the subtree that `other` has at `x`, if it has one. The parent keeps its
attributes; among parameters the new subtree comes last. -/
structure Transplants (index other result : NodeIndex) (x : String) : Prop where
  consistent : result.Consistent
  inside : ∀ k, Within k x → result.label k = other.label k
  outside : ∀ k, ¬ Within k x → Id.parent? x ≠ some k → result.label k = index.label k
  parent : ∀ p, Id.parent? x = some p → ∃ m ids, index[p]? = some m ∧
    result.label p = some (m.attributes, ids) ∧
    (m.kind = .function → ids = m.childIds.filter (· ≠ x) ++ [x].filter (other.contains ·))

namespace Transplants

theorem kindAt_eq (ht : Transplants index other result x) (k : String) :
    result.kindAt k = if Within k x then other.kindAt k else index.kindAt k := by
  split
  · next hw => exact kindAt_eq_of_label_eq (ht.inside k hw)
  · next hw =>
    by_cases hp : Id.parent? x = some k
    · obtain ⟨m, ids, hm, hl, -⟩ := ht.parent k hp
      rw [kindAt_eq_map_label, hl, kindAt_of_getElem? hm]
      rfl
    · exact kindAt_eq_of_label_eq (ht.outside k hw hp)

/-- The subtree of a staged write, once the ancestors are rebuilt. -/
theorem of_stage (h : index.Consistent) (hgap : staged.ConsistentExcept x)
    (hcons : result.Consistent) (hl : staged.LabelsAfterRebuild result x)
    (hstaged : ∀ k : String, staged[k]? = if Within k x then other[k]? else index[k]?)
    (hnew : other[x]? = none ∨ index[x]? = none) : Transplants index other result x where
  consistent := hcons
  inside := by
    intro k hw
    have hp : Id.parent? x ≠ some k := fun hp => Id.not_within_of_parent? hp hw
    rw [(hl k).1 hp, label, hstaged, if_pos hw, label]
  outside := by
    intro k hw hp
    rw [(hl k).1 hp, label, hstaged, if_neg hw, label]
  parent := by
    intro p hp
    obtain ⟨m, hm, -⟩ := hgap.fits hp
    have hindex := hm
    rw [hstaged, if_neg (Id.not_within_of_parent? hp)] at hindex
    refine ⟨m, _, hindex, (hl p).2 m hp hm, fun hk => ?_⟩
    have hx : staged[x]? = other[x]? := by rw [hstaged, if_pos (Within.refl x)]
    have hfresh : other[x]?.isSome = true → x ∉ m.children.map Node.id := by
      intro hs hmem
      rcases hnew with hnone | hnone
      · rw [hnone] at hs
        cases hs
      · obtain ⟨-, a, ha⟩ := (h.mem_childIds_iff hindex).1 hmem
        rw [hnone] at ha
        cases ha
    have hids : (staged.withCurrent m x).childIds =
        (Node.setParameter x other[x]? m.children).map Node.id := by
      rw [withCurrent, Node.childIds, Node.updatedChildren, hk, hx]
    have hlast : other[x]?.toList.map Node.id = [x].filter (other.contains ·) := by
      cases hox : other[x]? with
      | none => simp [(NameMap.contains_eq_false_iff other x).2 hox]
      | some a =>
        have hid : a.id = x := hgap.id_eq (hx.trans hox)
        simp [(NameMap.contains_eq_true_iff other x).2 ⟨a, hox⟩, hid]
    rw [hids, Node.setParameter_ids (h.wellFormed hindex).nodup hfresh, hlast]
    rfl

end Transplants

theorem exists_advance_removeNode (h : index.Consistent) (hx : index[x]? = some n) :
    ∃ result, advance index (.removeNode x) = .ok result ∧ Transplants index ∅ result x := by
  have hvalid : Id.isValidNode x = true :=
    h.id_eq hx ▸ Kind.isValidNode_of_isValidId (h.wellFormed hx).id_valid
  have hc : (Edit.removeNode x).check = .ok () := by
    rw [Edit.check, if_pos hvalid]
  have hs := (Edit.stage_removeNode_eq_ok_iff h).2 ⟨⟨n, hx⟩, rfl⟩
  obtain ⟨result, hadv, hcons, hgap, hl⟩ := exists_advance_of_stage h hc hs
  refine ⟨result, hadv, .of_stage h hgap hcons hl (fun k => ?_) (Or.inl (by simp))⟩
  rw [h.getElem?_eraseSubtree]
  simp

/-- A node of `other` brings along what `other` has within it. -/
theorem getElem?_insertSubtree (h : index.Consistent) (ho : other.Consistent)
    (hx : index[x]? = none) (hn : other[x]? = some n) (k : String) :
    (insertSubtree index n)[k]? = if Within k x then other[k]? else index[k]? := by
  have hid : n.id = x := ho.id_eq hn
  have hv := ho.validate hn
  split
  · next hw =>
    cases hk : other[k]? with
    | some m =>
      obtain ⟨r, hr, hmem⟩ := ho.exists_mem_preorder hk hw
      rw [hn, Option.some.injEq] at hr
      rw [← ho.id_eq hk, getElem?_insertSubtree_of_mem hv (hr ▸ hmem)]
    | none =>
      rw [insertSubtree, getElem?_foldl_replace_of_not_mem, h.getElem?_eq_none_of_within hx hw]
      rintro m hm rfl
      rw [ho.getElem?_of_mem_preorder hn hm] at hk
      cases hk
  · next hw => rw [getElem?_insertSubtree_of_not_within hv (hid ▸ hw)]

/-- A subtree of `other` can be added where its parent has the kind it has there. -/
theorem exists_advance_addNode (h : index.Consistent) (ho : other.Consistent)
    (hx : index[x]? = none) (hn : other[x]? = some n)
    (hp : ∀ p m, Id.parent? x = some p → other[p]? = some m → index.kindAt p = some m.kind) :
    ∃ result, advance index (.addNode n) = .ok result ∧ Transplants index other result x := by
  have hid : n.id = x := ho.id_eq hn
  have hc : n.validate = .ok () := ho.validate hn
  have hparent : Edit.checkParent index n = .ok () := by
    rw [Edit.checkParent_eq_ok_iff h]
    intro p hpar
    rw [hid] at hpar
    obtain ⟨m, hm, hmem⟩ := ho.parent hn hpar
    obtain ⟨m', hm', hk⟩ := kindAt_eq_some_iff.1 (hp p m hpar hm)
    exact ⟨m', hm', hk ▸ (ho.wellFormed hm).fits n hmem⟩
  have hs := Edit.stage_addNode_eq_ok_iff.2 ⟨hid ▸ hx, hparent, rfl⟩
  obtain ⟨result, hadv, hcons, hgap, hl⟩ := exists_advance_of_stage (e := .addNode n) h hc hs
  change ConsistentExcept _ n.id at hgap
  change LabelsAfterRebuild _ result n.id at hl
  rw [hid] at hgap hl
  exact ⟨result, hadv,
    .of_stage h hgap hcons hl (getElem?_insertSubtree h ho hx hn) (Or.inr hx)⟩

/-- An attribute edit changes the label of its node and no other. -/
theorem exists_advance_revise (h : index.Consistent) (he : e.isAttributeEdit = true)
    (hc : e.check = .ok ()) (hx : index[e.id]? = some n) (hr : Edit.revise index n e = .ok r) :
    ∃ result, advance index e = .ok result ∧ result.Consistent ∧
      ∀ k, result.label k = if k = e.id then some (r.attributes, r.childIds) else index.label k := by
  have hn : index[n.id]? = some n := by rw [h.id_eq hx, hx]
  have hrev := Edit.revises_of_revise h hn he hr
  have hid : r.id = e.id := hrev.id_eq.trans (h.id_eq hx)
  have hs := (Edit.stage_attributeEdit_eq_ok_iff h he).2 ⟨n, r, hx, hr, rfl⟩
  obtain ⟨result, hadv, hcons, hgap, hl⟩ := exists_advance_of_stage h hc hs
  have new : (replace index r)[e.id]? = some r := by
    rw [replace, NameMap.getElem?_insert, if_pos hid]
  have old : ∀ k : String, k ≠ e.id → (replace index r)[k]? = index[k]? := by
    intro k hk
    exact NameMap.getElem?_insert_of_ne _ _ (hid ▸ hk)
  refine ⟨result, hadv, hcons, fun k => ?_⟩
  rw [hl.eq_of_mem hgap new]
  · split
    · next hk => rw [hk, label_of_getElem? new]
    · next hk => rw [label, old k hk, label]
  · intro p m hp hm
    rw [old p fun he' => Id.parent?_ne_self (he' ▸ hp)] at hm
    exact (h.mem_childIds_iff hm).2 ⟨hp, n, hx⟩

end SourceHistory.NodeIndex
