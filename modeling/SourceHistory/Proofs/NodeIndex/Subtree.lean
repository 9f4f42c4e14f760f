import SourceHistory.NodeIndex
import SourceHistory.Proofs.Collections
import SourceHistory.Proofs.Node.WellFormed

namespace SourceHistory.NodeIndex

open SourceHistory.Id (Within)

variable {index : NodeIndex} {pending : List String} {k x : String} {n m : Node} {ns : List Node}

theorem getElem?_foldl_replace_of_not_mem (h : ∀ m ∈ ns, m.id ≠ k) :
    (ns.foldl replace index)[k]? = index[k]? := by
  induction ns generalizing index with
  | nil => rfl
  | cons n ns ih =>
    obtain ⟨hn, hns⟩ := List.forall_mem_cons.1 h
    rw [List.foldl_cons, ih hns, replace, NameMap.getElem?_insert, if_neg hn]

theorem getElem?_foldl_replace_of_mem (hnd : (ns.map Node.id).Nodup) (hm : m ∈ ns) :
    (ns.foldl replace index)[m.id]? = some m := by
  induction ns generalizing index with
  | nil => cases hm
  | cons n ns ih =>
    obtain ⟨hn, hnd⟩ := List.nodup_cons.1 hnd
    rcases List.mem_cons.1 hm with rfl | hm
    · have hfresh : ∀ a ∈ ns, a.id ≠ m.id := fun a ha he => hn (he ▸ List.mem_map_of_mem ha)
      rw [List.foldl_cons, getElem?_foldl_replace_of_not_mem hfresh, replace,
        NameMap.getElem?_insert, if_pos rfl]
    · exact ih hnd hm

theorem getElem?_insertSubtree_of_mem (h : n.validate = .ok ()) (hm : m ∈ n.preorder) :
    (insertSubtree index n)[m.id]? = some m :=
  getElem?_foldl_replace_of_mem (Node.nodup_preorder_ids h) hm

theorem getElem?_insertSubtree_of_not_within (h : n.validate = .ok ()) (hk : ¬ Within k n.id) :
    (insertSubtree index n)[k]? = index[k]? := by
  apply getElem?_foldl_replace_of_not_mem
  intro m hm he
  exact hk (he ▸ Node.within_of_mem_preorder h hm)

/-- An entry after a subtree was written is a node of the subtree or was there before. -/
theorem getElem?_insertSubtree_eq_some (h : n.validate = .ok ())
    (hk : (insertSubtree index n)[k]? = some m) :
    m ∈ n.preorder ∧ m.id = k ∨ index[k]? = some m ∧ ∀ a ∈ n.preorder, a.id ≠ k := by
  by_cases hex : ∃ a ∈ n.preorder, a.id = k
  · obtain ⟨a, ha, rfl⟩ := hex
    rw [getElem?_insertSubtree_of_mem h ha, Option.some.injEq] at hk
    exact Or.inl ⟨hk ▸ ha, by rw [hk]⟩
  · have hfresh : ∀ a ∈ n.preorder, a.id ≠ k := fun a ha he => hex ⟨a, ha, he⟩
    refine Or.inr ⟨?_, hfresh⟩
    rwa [insertSubtree, getElem?_foldl_replace_of_not_mem hfresh] at hk

/-- Entries list only ids directly below their own. -/
def Direct (index : NodeIndex) : Prop :=
  ∀ k n, index[k]? = some n → ∀ c ∈ n.childIds, Id.parent? c = some k

/-- The entry of an entity is `pending` or its parent lists it. -/
def Listed (index : NodeIndex) (pending : List String) : Prop :=
  ∀ k n p, index[k]? = some n → Id.parent? k = some p →
    k ∈ pending ∨ ∃ m, index[p]? = some m ∧ k ∈ m.childIds

theorem Direct.erase (h : Direct index) (x : String) : Direct (index.erase x) := by
  intro k n hk
  by_cases he : k = x
  · rw [he, NameMap.getElem?_erase, if_pos rfl] at hk
    cases hk
  · rw [NameMap.getElem?_erase_of_ne _ he] at hk
    exact h k n hk

theorem Listed.of_none (h : Listed index (x :: pending)) (hx : index[x]? = none) :
    Listed index pending := by
  intro k n p hk hp
  rcases h k n p hk hp with hmem | hex
  · rcases List.mem_cons.1 hmem with rfl | hmem
    · rw [hx] at hk
      cases hk
    · exact Or.inl hmem
  · exact Or.inr hex

/-- Once the entry at `x` is gone, its children wait for their removal. -/
theorem Listed.erase (h : Listed index (x :: pending)) (hx : index[x]? = some n) :
    Listed (index.erase x) (n.childIds ++ pending) := by
  intro k m p hk hp
  have hkx : k ≠ x := by
    rintro rfl
    rw [NameMap.getElem?_erase, if_pos rfl] at hk
    cases hk
  rw [NameMap.getElem?_erase_of_ne _ hkx] at hk
  rcases h k m p hk hp with hmem | ⟨q, hq, hmem⟩
  · exact Or.inl (List.mem_append_right _ ((List.mem_cons.1 hmem).resolve_left hkx))
  · by_cases hpx : p = x
    · rw [hpx, hx, Option.some.injEq] at hq
      exact Or.inl (List.mem_append_left _ (hq ▸ hmem))
    · exact Or.inr ⟨q, by rw [NameMap.getElem?_erase_of_ne _ hpx]; exact hq, hmem⟩

/-- Below a missing entry every entry lies within something pending. -/
theorem Listed.exists_pending (h : Listed index pending) (hx : index[x]? = none)
    (hk : index[k]? = some n) (hw : Within k x) : ∃ y ∈ pending, Within k y := by
  induction k using Id.parent_induction generalizing n with
  | unit k hp =>
    rw [Id.within_iff_of_parent?_none hp] at hw
    rw [← hw, hx] at hk
    cases hk
  | entity k p hp ih =>
    rcases (Id.within_iff_of_parent?_some hp).1 hw with he | hw
    · rw [← he, hx] at hk
      cases hk
    · rcases h k n p hk hp with hmem | ⟨m, hm, -⟩
      · exact ⟨k, hmem, Within.refl k⟩
      · obtain ⟨y, hy, hpy⟩ := ih hm hw
        exact ⟨y, hy, (Within.of_parent? hp).trans hpy⟩

theorem eraseAll_cons_of_none (hx : index[x]? = none) :
    eraseAll index (x :: pending) = eraseAll index pending := by
  rw [eraseAll]
  split
  · rfl
  · next n hn => rw [hx] at hn; cases hn

theorem eraseAll_cons_of_some (hx : index[x]? = some n) :
    eraseAll index (x :: pending) = eraseAll (index.erase x) (n.childIds ++ pending) := by
  rw [eraseAll]
  split
  · next hn => rw [hx] at hn; cases hn
  · next a hn =>
    rw [hx, Option.some.injEq] at hn
    rw [hn]

theorem getElem?_eraseAll_of_none (h : index[k]? = none) :
    (eraseAll index pending)[k]? = none := by
  induction index, pending using eraseAll.induct with
  | case1 index => rwa [eraseAll]
  | case2 index x pending hx ih =>
    rw [eraseAll_cons_of_none hx]
    exact ih h
  | case3 index x pending n hx ih =>
    rw [eraseAll_cons_of_some hx]
    apply ih
    rw [NameMap.getElem?_erase, h, ite_self]

theorem getElem?_eraseAll_of_not_within (hd : Direct index) (hk : ∀ x ∈ pending, ¬ Within k x) :
    (eraseAll index pending)[k]? = index[k]? := by
  induction index, pending using eraseAll.induct with
  | case1 index => rw [eraseAll]
  | case2 index x pending hx ih =>
    rw [eraseAll_cons_of_none hx]
    exact ih hd (List.forall_mem_cons.1 hk).2
  | case3 index x pending n hx ih =>
    obtain ⟨hkx, hkp⟩ := List.forall_mem_cons.1 hk
    have hne : k ≠ x := fun he => hkx (he ▸ Within.refl k)
    rw [eraseAll_cons_of_some hx, ih (hd.erase x), NameMap.getElem?_erase_of_ne _ hne]
    intro y hy hw
    rcases List.mem_append.1 hy with hy | hy
    · exact hkx (hw.trans (Within.of_parent? (hd x n hx y hy)))
    · exact hkp y hy hw

theorem getElem?_eraseAll_of_within (hl : Listed index pending) (hx : x ∈ pending)
    (hw : Within k x) : (eraseAll index pending)[k]? = none := by
  induction index, pending using eraseAll.induct generalizing x with
  | case1 index => cases hx
  | case2 index y pending hy ih =>
    rw [eraseAll_cons_of_none hy]
    have hl' := hl.of_none hy
    rcases List.mem_cons.1 hx with rfl | hx
    · cases hk : index[k]? with
      | none => exact getElem?_eraseAll_of_none hk
      | some a =>
        obtain ⟨z, hz, hkz⟩ := hl'.exists_pending hy hk hw
        exact ih hl' hz hkz
    · exact ih hl' hx hw
  | case3 index y pending n hy ih =>
    rw [eraseAll_cons_of_some hy]
    have hl' := hl.erase hy
    rcases List.mem_cons.1 hx with rfl | hx
    · cases hk : (index.erase x)[k]? with
      | none => exact getElem?_eraseAll_of_none hk
      | some a =>
        have hgone : (index.erase x)[x]? = none := by rw [NameMap.getElem?_erase, if_pos rfl]
        obtain ⟨z, hz, hkz⟩ := hl'.exists_pending hgone hk hw
        exact ih hl' hz hkz
    · exact ih hl' (List.mem_append_right _ hx) hw

/-- Subtrees are removed exactly: what lies within the root goes, all else stays. -/
theorem getElem?_eraseSubtree (hd : Direct index) (hl : Listed index [x]) (k : String) :
    (eraseSubtree index x)[k]? = if Within k x then none else index[k]? := by
  split
  · next hw => exact getElem?_eraseAll_of_within hl (List.mem_singleton_self x) hw
  · next hw =>
    apply getElem?_eraseAll_of_not_within hd
    intro y hy
    rwa [List.mem_singleton.1 hy]

end SourceHistory.NodeIndex
