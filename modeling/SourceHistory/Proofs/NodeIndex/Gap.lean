import SourceHistory.Proofs.NodeIndex.Rebuild

namespace SourceHistory.NodeIndex

open SourceHistory.Id (Within)

variable {index : NodeIndex} {x : String} {n r : Node}

/-- `r` can take the place of the entry `n`: only attributes and the order of children differ. -/
structure Revises (index : NodeIndex) (n r : Node) : Prop where
  id_eq : r.id = n.id
  kind_eq : r.kind = n.kind
  wellFormed : r.WellFormed
  current : ∀ c ∈ r.children, index[c.id]? = some c
  keeps : ∀ k ∈ n.childIds, k ∈ r.childIds

namespace Consistent

theorem insertSubtree_except (h : index.Consistent) (hn : n.validate = .ok ())
    (hfresh : index[n.id]? = none)
    (hfit : ∀ p, Id.parent? n.id = some p →
      ∃ m, index[p]? = some m ∧ m.kind.canContain n.kind = true) :
    ConsistentExcept (insertSubtree index n) n.id := by
  -- Nothing within the new root had an entry, so old entries are not overwritten.
  have old {k : String} {m : Node} (hk : index[k]? = some m) :
      (insertSubtree index n)[k]? = some m := by
    rw [getElem?_insertSubtree_of_not_within hn, hk]
    intro hw
    rw [h.getElem?_eq_none_of_within hfresh hw] at hk
    cases hk
  refine ⟨⟨?_, ?_⟩, ?_, ?_, ?_⟩
  · intro k m hk
    rcases getElem?_insertSubtree_eq_some hn hk with ⟨-, he⟩ | ⟨hk, -⟩
    · exact he
    · exact h.id_eq hk
  · intro k m hk
    rcases getElem?_insertSubtree_eq_some hn hk with ⟨hm, -⟩ | ⟨hk, -⟩
    · exact Node.validate_eq_ok_iff.1 hn m hm
    · exact h.wellFormed hk
  · intro k m c hk hc hne
    rcases getElem?_insertSubtree_eq_some hn hk with ⟨hm, -⟩ | ⟨hk, -⟩
    · exact getElem?_insertSubtree_of_mem hn (Node.child_mem_preorder hm hc)
    · exact old (h.child hk hc)
  · intro k p m hk hp hne
    rcases getElem?_insertSubtree_eq_some hn hk with ⟨hm, he⟩ | ⟨hk, -⟩
    · obtain ⟨q, hq, hmem⟩ := Node.exists_parent_of_mem_preorder hm fun hmn => hne (hmn ▸ he.symm)
      have hd := (Node.validate_eq_ok_iff.1 hn q hq).direct m hmem
      rw [he, hp, Option.some.injEq] at hd
      exact ⟨q, hd ▸ getElem?_insertSubtree_of_mem hn hq, hmem⟩
    · obtain ⟨q, hq, hmem⟩ := h.parent hk hp
      exact ⟨q, old hq, hmem⟩
  · intro p hp
    obtain ⟨m, hm, hc⟩ := hfit p hp
    refine ⟨m, old hm, fun a ha => ?_⟩
    rw [getElem?_insertSubtree_of_mem hn (Node.self_mem_preorder n), Option.some.injEq] at ha
    exact ha ▸ hc

theorem eraseSubtree_except (h : index.Consistent) (hx : index[x]? = some n) :
    ConsistentExcept (eraseSubtree index x) x := by
  have old {k : String} {m : Node} (hk : (eraseSubtree index x)[k]? = some m) :
      ¬ Within k x ∧ index[k]? = some m := by
    rw [h.getElem?_eraseSubtree] at hk
    split at hk
    · cases hk
    · next hw => exact ⟨hw, hk⟩
  have keep {k : String} (hw : ¬ Within k x) : (eraseSubtree index x)[k]? = index[k]? := by
    rw [h.getElem?_eraseSubtree, if_neg hw]
  refine ⟨⟨fun hk => h.id_eq (old hk).2, fun hk => h.wellFormed (old hk).2⟩, ?_, ?_, ?_⟩
  · intro k m c hk hc hne
    obtain ⟨hw, hk⟩ := old hk
    have hp : Id.parent? c.id = some k := h.id_eq hk ▸ (h.wellFormed hk).direct c hc
    rw [keep, h.child hk hc]
    rw [Id.within_iff_of_parent?_some hp, not_or]
    exact ⟨Ne.symm hne, hw⟩
  · intro k p m hk hp _
    obtain ⟨hw, hk⟩ := old hk
    obtain ⟨q, hq, hmem⟩ := h.parent hk hp
    exact ⟨q, (keep fun hpx => hw ((Within.of_parent? hp).trans hpx)).trans hq, hmem⟩
  · intro p hp
    obtain ⟨m, hm, -⟩ := h.parent hx hp
    refine ⟨m, (keep (Id.not_within_of_parent? hp)).trans hm, fun a ha => ?_⟩
    exact absurd (Within.refl x) (old ha).1

theorem replace_except (h : index.Consistent) (hx : index[x]? = some n)
    (hr : index.Revises n r) : ConsistentExcept (replace index r) x := by
  have hid : r.id = x := hr.id_eq.trans (h.id_eq hx)
  have new : (replace index r)[x]? = some r := by
    rw [replace, NameMap.getElem?_insert, if_pos hid]
  have old {k : String} (hk : k ≠ x) : (replace index r)[k]? = index[k]? :=
    NameMap.getElem?_insert_of_ne _ _ (hid ▸ hk)
  refine ⟨⟨?_, ?_⟩, ?_, ?_, ?_⟩
  · intro k m hk
    by_cases hkx : k = x
    · rw [hkx, new, Option.some.injEq] at hk
      rw [← hk, hkx, hid]
    · exact h.id_eq (old hkx ▸ hk)
  · intro k m hk
    by_cases hkx : k = x
    · rw [hkx, new, Option.some.injEq] at hk
      exact hk ▸ hr.wellFormed
    · exact h.wellFormed (old hkx ▸ hk)
  · intro k m c hk hc hne
    rw [old hne]
    by_cases hkx : k = x
    · rw [hkx, new, Option.some.injEq] at hk
      exact hr.current c (hk ▸ hc)
    · exact h.child (old hkx ▸ hk) hc
  · intro k p m hk hp hkx
    rw [old hkx] at hk
    obtain ⟨q, hq, hmem⟩ := h.parent hk hp
    by_cases hpx : p = x
    · rw [hpx, hx, Option.some.injEq] at hq
      have hkeep := hr.keeps m.id (hq ▸ List.mem_map_of_mem hmem)
      obtain ⟨c, hc, hcm⟩ := List.mem_map.1 hkeep
      have hcur := hr.current c hc
      rw [hcm, h.id_eq hk, hk, Option.some.injEq] at hcur
      exact ⟨r, hpx ▸ new, hcur ▸ hc⟩
    · exact ⟨q, (old hpx).trans hq, hmem⟩
  · intro p hp
    obtain ⟨m, hm, hmem⟩ := h.parent hx hp
    have hpx : p ≠ x := fun he => Id.parent?_ne_self (he ▸ hp)
    refine ⟨m, (old hpx).trans hm, fun a ha => ?_⟩
    rw [new, Option.some.injEq] at ha
    rw [← ha, hr.kind_eq]
    exact (h.wellFormed hm).fits n hmem

end Consistent

end SourceHistory.NodeIndex
