import SourceHistory.Proofs.NodeIndex.Gap

namespace SourceHistory

variable {index : NodeIndex} {u : SourceUnit} {us : List SourceUnit} {path : String}

theorem SourceUnit.parent?_path (h : u.validate = .ok ()) : Id.parent? u.path = none :=
  Kind.parent?_of_isValidId_unit
    (Node.validate_eq_ok_iff.1 h u.toNode (Node.self_mem_preorder _)).id_valid

namespace NodeIndex

theorem getElem?_insertSubtree_unit (h : u.validate = .ok ()) (hp : Id.parent? path = none) :
    (insertSubtree index u.toNode)[path]? = if u.path = path then some u.toNode else index[path]? := by
  split
  · next he => exact he ▸ getElem?_insertSubtree_of_mem h (Node.self_mem_preorder u.toNode)
  · next he =>
    apply getElem?_insertSubtree_of_not_within h
    rwa [Id.within_iff_of_parent?_none hp]

theorem Consistent.insertUnit (hi : index.Consistent) (h : u.validate = .ok ())
    (hfresh : index[u.path]? = none) : (insertSubtree index u.toNode).Consistent := by
  have hp := SourceUnit.parent?_path h
  refine (hi.insertSubtree_except h hfresh fun p hp' => ?_).consistent hp
  change Id.parent? u.path = some p at hp'
  rw [hp] at hp'
  cases hp'

theorem Consistent.eraseUnit (hi : index.Consistent) (hp : Id.parent? path = none) :
    (eraseSubtree index path).Consistent := by
  cases hx : index[path]? with
  | some n => exact (hi.eraseSubtree_except hx).consistent hp
  | none =>
    have hsame : eraseSubtree index path = index := by
      apply Std.ExtTreeMap.ext_getElem?
      intro k
      rw [hi.getElem?_eraseSubtree]
      split
      · next hw => rw [hi.getElem?_eq_none_of_within hx hw]
      · rfl
    rwa [hsame]

/-- Writing units on top of an index that has none of their paths. -/
theorem foldl_insertUnit (hi : index.Consistent) (hv : ∀ u ∈ us, u.validate = .ok ())
    (hnd : (us.map SourceUnit.path).Nodup) (hfresh : ∀ u ∈ us, index[u.path]? = none) :
    let result := us.foldl (fun index u => insertSubtree index u.toNode) index
    result.Consistent ∧ (∀ u ∈ us, result[u.path]? = some u.toNode) ∧
      ∀ path, Id.parent? path = none → (∀ u ∈ us, u.path ≠ path) → result[path]? = index[path]? := by
  induction us generalizing index with
  | nil => exact ⟨hi, by simp, fun _ _ _ => rfl⟩
  | cons u us ih =>
    obtain ⟨hu, hus⟩ := List.forall_mem_cons.1 hv
    obtain ⟨hnew, hnd⟩ := List.nodup_cons.1 hnd
    obtain ⟨hfu, hfus⟩ := List.forall_mem_cons.1 hfresh
    have hne : ∀ v ∈ us, u.path ≠ v.path := fun v hv he => hnew (he ▸ List.mem_map_of_mem hv)
    have hfresh' : ∀ v ∈ us, (insertSubtree index u.toNode)[v.path]? = none := by
      intro v hv
      rw [getElem?_insertSubtree_unit hu (SourceUnit.parent?_path (hus v hv)),
        if_neg (hne v hv), hfus v hv]
    obtain ⟨hcons, hmem, hother⟩ := ih (hi.insertUnit hu hfu) hus hnd hfresh'
    refine ⟨hcons, ?_, ?_⟩
    · intro v hv
      rcases List.mem_cons.1 hv with rfl | hv
      · rw [List.foldl_cons, hother v.path (SourceUnit.parent?_path hu)
          fun w hw => (hne w hw).symm, getElem?_insertSubtree_unit hu (SourceUnit.parent?_path hu),
          if_pos rfl]
      · exact hmem v hv
    · intro path hp hpath
      obtain ⟨hpu, hpus⟩ := List.forall_mem_cons.1 hpath
      rw [List.foldl_cons, hother path hp hpus, getElem?_insertSubtree_unit hu hp, if_neg hpu]

theorem consistent_ofUnits (hv : ∀ u ∈ us, u.validate = .ok ())
    (hnd : (us.map SourceUnit.path).Nodup) : (ofUnits us).Consistent :=
  (foldl_insertUnit Consistent.empty hv hnd fun _ _ => by simp).1

theorem getElem?_ofUnits_of_mem (hv : ∀ u ∈ us, u.validate = .ok ())
    (hnd : (us.map SourceUnit.path).Nodup) (hu : u ∈ us) : (ofUnits us)[u.path]? = some u.toNode :=
  (foldl_insertUnit Consistent.empty hv hnd fun _ _ => by simp).2.1 u hu

theorem getElem?_ofUnits_of_not_mem (hv : ∀ u ∈ us, u.validate = .ok ())
    (hnd : (us.map SourceUnit.path).Nodup) (hp : Id.parent? path = none)
    (hpath : ∀ u ∈ us, u.path ≠ path) : (ofUnits us)[path]? = none := by
  rw [ofUnits, (foldl_insertUnit Consistent.empty hv hnd fun _ _ => by simp).2.2 path hp hpath]
  simp

end NodeIndex

end SourceHistory
