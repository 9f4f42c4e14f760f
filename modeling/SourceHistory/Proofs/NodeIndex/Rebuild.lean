import SourceHistory.Edit.Apply
import SourceHistory.Proofs.NodeIndex.Consistent

namespace SourceHistory.NodeIndex

open SourceHistory.Id (Within)

variable {index rebuilt : NodeIndex} {k x p : String} {m n : Node}

/-- Consistent but for the parent of `x`, which may hold another version of `x`, or none. One round
of the rebuild mends this link and moves the gap one level up. -/
structure ConsistentExcept (index : NodeIndex) (x : String) : Prop extends Sound index where
  child : ∀ {k : String} {n c : Node}, index[k]? = some n → c ∈ n.children → c.id ≠ x →
    index[c.id]? = some c
  parent : ∀ {k p : String} {n : Node}, index[k]? = some n → Id.parent? k = some p → k ≠ x →
    ∃ m, index[p]? = some m ∧ n ∈ m.children
  fits : ∀ {p : String}, Id.parent? x = some p →
    ∃ m, index[p]? = some m ∧ ∀ n, index[x]? = some n → m.kind.canContain n.kind = true

/-- The parent `m` of `x` with the current version of `x` in it. -/
def withCurrent (index : NodeIndex) (m : Node) (x : String) : Node :=
  { m with children := m.updatedChildren x index[x]? }

namespace ConsistentExcept

theorem consistent (h : index.ConsistentExcept x) (hx : Id.parent? x = none) :
    index.Consistent where
  toSound := h.toSound
  child := by
    intro k n c hk hc
    refine h.child hk hc fun he => ?_
    have hp := (h.wellFormed hk).direct c hc
    rw [he, hx] at hp
    cases hp
  parent := by
    intro k p n hk hp
    refine h.parent hk hp fun he => ?_
    rw [he, hx] at hp
    cases hp

theorem canContain (h : index.ConsistentExcept x) (hp : Id.parent? x = some p)
    (hm : index[p]? = some m) :
    ∀ c, index[x]? = some c → m.kind.canContain c.kind = true := by
  obtain ⟨m', hm', hfit⟩ := h.fits hp
  rw [hm, Option.some.injEq] at hm'
  exact hm' ▸ hfit

theorem mem_children_withCurrent (h : index.ConsistentExcept x) (hp : Id.parent? x = some p)
    (hm : index[p]? = some m) {c : Node} :
    c ∈ (index.withCurrent m x).children ↔ index[x]? = some c ∨ c ∈ m.children ∧ c.id ≠ x :=
  Node.mem_updatedChildren_iff (h.wellFormed hm) (h.canContain hp hm)

/-- One round mends the link above `x` and leaves the one above its parent. -/
theorem rebuildParent (h : index.ConsistentExcept x) (hp : Id.parent? x = some p)
    (hm : index[p]? = some m) :
    ConsistentExcept (index.insert p (index.withCurrent m x)) p := by
  have hmid : m.id = p := h.id_eq hm
  have hxp : x ≠ p := fun he => Id.parent?_ne_self (he ▸ hp)
  have hwf : (index.withCurrent m x).WellFormed :=
    (h.wellFormed hm).updateChild (hmid.symm ▸ hp) (fun c hc => h.id_eq hc) (h.canContain hp hm)
  have old {k : String} (hk : k ≠ p) :
      (index.insert p (index.withCurrent m x))[k]? = index[k]? :=
    NameMap.getElem?_insert_of_ne _ _ hk
  have new : (index.insert p (index.withCurrent m x))[p]? = some (index.withCurrent m x) := by
    rw [NameMap.getElem?_insert, if_pos rfl]
  refine ⟨⟨?_, ?_⟩, ?_, ?_, ?_⟩
  · intro k n hk
    by_cases hkp : k = p
    · rw [hkp, new, Option.some.injEq] at hk
      rw [← hk, hkp]
      exact hmid
    · exact h.id_eq (old hkp ▸ hk)
  · intro k n hk
    by_cases hkp : k = p
    · rw [hkp, new, Option.some.injEq] at hk
      exact hk ▸ hwf
    · exact h.wellFormed (old hkp ▸ hk)
  · intro k n c hk hc hcp
    rw [old hcp]
    by_cases hkp : k = p
    · rw [hkp, new, Option.some.injEq] at hk
      rw [← hk, h.mem_children_withCurrent hp hm] at hc
      rcases hc with hc | ⟨hc, hcx⟩
      · rw [h.id_eq hc, hc]
      · exact h.child hm hc hcx
    · rw [old hkp] at hk
      refine h.child hk hc fun hcx => hkp ?_
      have hd := (h.wellFormed hk).direct c hc
      rw [hcx, hp, Option.some.injEq, h.id_eq hk] at hd
      exact hd.symm
  · intro k q n hk hq hkp
    rw [old hkp] at hk
    by_cases hkx : k = x
    · rw [hkx, hp, Option.some.injEq] at hq
      rw [hkx] at hk
      exact ⟨_, hq ▸ new, (h.mem_children_withCurrent hp hm).2 (Or.inl hk)⟩
    · obtain ⟨m', hm', hmem⟩ := h.parent hk hq hkx
      by_cases hqp : q = p
      · rw [hqp, hm, Option.some.injEq] at hm'
        refine ⟨_, hqp ▸ new, (h.mem_children_withCurrent hp hm).2 (Or.inr ⟨hm' ▸ hmem, ?_⟩)⟩
        rwa [h.id_eq hk]
      · exact ⟨m', (old hqp).trans hm', hmem⟩
  · intro q hq
    obtain ⟨m', hm', hmem⟩ := h.parent hm hq (Ne.symm hxp)
    have hqp : q ≠ p := fun he => Id.parent?_ne_self (he ▸ hq)
    refine ⟨m', (old hqp).trans hm', fun n hn => ?_⟩
    rw [new, Option.some.injEq] at hn
    rw [← hn]
    exact (h.wellFormed hm').fits m hmem

end ConsistentExcept

theorem getElem?_rebuildChain_of_not_mem {ids : List String} (hk : k ∉ ids) :
    (rebuildChain index x ids).state[k]? = index[k]? := by
  induction ids generalizing index x with
  | nil => rfl
  | cons p ids ih =>
    obtain ⟨hp, hids⟩ := not_or.1 (mt List.mem_cons.2 hk)
    rw [rebuildChain]
    split
    · rfl
    · split
      · rfl
      · rw [ih hids, NameMap.getElem?_insert_of_ne _ _ hp]

/-- A rebuild writes only where there is an entry. -/
theorem contains_rebuildChain {ids : List String} :
    (rebuildChain index x ids).state.contains k = index.contains k := by
  induction ids generalizing index x with
  | nil => rfl
  | cons p ids ih =>
    rw [rebuildChain]
    split
    · rfl
    · next m hm =>
      split
      · rfl
      · rw [ih, NameMap.contains_insert_of_some _ hm]

theorem getElem?_of_rebuildAncestors_eq_done (h : rebuildAncestors index x = .done rebuilt) :
    rebuilt[x]? = index[x]? := by
  have hx : x ∉ Id.ancestors x := fun hm => Id.not_within_of_mem_ancestors hm (Within.refl x)
  have hsame : (rebuildChain index x (Id.ancestors x)).state[x]? = index[x]? :=
    getElem?_rebuildChain_of_not_mem hx
  rwa [← rebuildAncestors, h] at hsame

/-- What a rebuild that goes through did first. -/
theorem exists_of_rebuildAncestors_eq_done (hp : Id.parent? x = some p)
    (h : rebuildAncestors index x = .done rebuilt) :
    ∃ m, index[p]? = some m ∧ (∀ n, index[x]? = some n → m.kind.canContain n.kind = true) ∧
      rebuildAncestors (index.insert p (index.withCurrent m x)) p = .done rebuilt := by
  rw [rebuildAncestors, Id.ancestors_of_parent?_some hp, rebuildChain] at h
  split at h
  · cases congrArg Attempt.error? h
  · next m hm =>
    split at h
    · cases congrArg Attempt.error? h
    · next r hr =>
      obtain ⟨hfit, rfl⟩ := Node.setChild_eq_ok_iff.1 hr
      exact ⟨m, hm, hfit, h⟩

/-- After a rebuild that goes through, consistent or not, every ancestor is as it was, but for the
child on the way, which is there in its final version or not at all; and it may hold that version. -/
theorem exists_withCurrent_of_done (h : rebuildAncestors index x = .done rebuilt) {c : String}
    (hw : Within x c) (hp : Id.parent? c = some p) :
    ∃ m, index[p]? = some m ∧ rebuilt[p]? = some (rebuilt.withCurrent m c) ∧
      ∀ n, rebuilt[c]? = some n → m.kind.canContain n.kind = true := by
  induction x using Id.parent_induction generalizing index with
  | unit x hx =>
    rw [(Id.within_iff_of_parent?_none hx).1 hw, hx] at hp
    cases hp
  | entity x q hq ih =>
    obtain ⟨m, hm, hfit, hrest⟩ := exists_of_rebuildAncestors_eq_done hq h
    rcases (Id.within_iff_of_parent?_some hq).1 hw with rfl | hwq
    · obtain rfl : q = p := Option.some.inj (hq.symm.trans hp)
      have hsame := getElem?_of_rebuildAncestors_eq_done h
      refine ⟨m, hm, ?_, hsame ▸ hfit⟩
      rw [getElem?_of_rebuildAncestors_eq_done hrest, NameMap.getElem?_insert, if_pos rfl,
        withCurrent, withCurrent, hsame]
    · obtain ⟨m', hm', hr⟩ := ih hrest hwq
      have hne : p ≠ q := by
        rintro rfl
        exact Id.not_within_of_parent? hp hwq
      rw [NameMap.getElem?_insert_of_ne _ _ hne] at hm'
      exact ⟨m', hm', hr⟩

theorem rebuildAncestors_of_parent?_none (hx : Id.parent? x = none) :
    rebuildAncestors index x = .done index := by
  rw [rebuildAncestors, Id.ancestors_of_parent?_none hx, rebuildChain]

theorem rebuildAncestors_of_parent?_some (hp : Id.parent? x = some p) (hm : index[p]? = some m)
    (hc : ∀ c, index[x]? = some c → m.kind.canContain c.kind = true) :
    rebuildAncestors index x = rebuildAncestors (index.insert p (index.withCurrent m x)) p := by
  rw [rebuildAncestors, Id.ancestors_of_parent?_some hp, rebuildChain, hm]
  simp only [Node.setChild_eq_ok hc]
  rfl

/-- The label of the parent of `x` once it holds the current version of `x`. -/
def LabelsAfterRebuild (index rebuilt : NodeIndex) (x : String) : Prop :=
  ∀ k : String,
    (Id.parent? x ≠ some k → rebuilt.label k = index.label k) ∧
    (∀ m, Id.parent? x = some k → index[k]? = some m →
      rebuilt.label k = some (m.attributes, (index.withCurrent m x).childIds))

/-- A rebuild changes no label if the parent lists `x` already. -/
theorem LabelsAfterRebuild.eq_of_mem
    (hl : index.LabelsAfterRebuild rebuilt x) (h : index.ConsistentExcept x)
    (hx : index[x]? = some n)
    (hmem : ∀ p m, Id.parent? x = some p → index[p]? = some m → x ∈ m.childIds) (k : String) :
    rebuilt.label k = index.label k := by
  by_cases hp : Id.parent? x = some k
  · obtain ⟨m, hm, -⟩ := h.fits hp
    rw [(hl k).2 m hp hm, label_of_getElem? hm, withCurrent, Node.childIds, hx,
      Node.updatedChildren_ids_of_mem (h.wellFormed hm) (h.id_eq hx) (hmem k m hp hm)]
  · exact (hl k).1 hp

/-- On an index with one gap the rebuild succeeds and closes it. -/
theorem ConsistentExcept.exists_rebuildAncestors (h : index.ConsistentExcept x) :
    ∃ rebuilt, rebuildAncestors index x = .done rebuilt ∧ rebuilt.Consistent ∧
      index.LabelsAfterRebuild rebuilt x := by
  induction x using Id.parent_induction generalizing index with
  | unit x hx =>
    refine ⟨index, rebuildAncestors_of_parent?_none hx, h.consistent hx, fun k => ⟨fun _ => rfl, ?_⟩⟩
    intro m hk
    rw [hx] at hk
    cases hk
  | entity x p hp ih =>
    obtain ⟨m, hm, hfit⟩ := h.fits hp
    have hstep := h.rebuildParent hp hm
    obtain ⟨rebuilt, hdone, hcons, hlabels⟩ := ih hstep
    rw [← rebuildAncestors_of_parent?_some hp hm hfit] at hdone
    refine ⟨rebuilt, hdone, hcons, ?_⟩
    have new : (index.insert p (index.withCurrent m x))[p]? = some (index.withCurrent m x) := by
      rw [NameMap.getElem?_insert, if_pos rfl]
    -- Further up each parent already lists the child whose entry was rewritten.
    have hsame : ∀ k, rebuilt.label k = label (index.insert p (index.withCurrent m x)) k := by
      refine hlabels.eq_of_mem hstep new fun q m' hq hm' => ?_
      have hqp : q ≠ p := fun he => Id.parent?_ne_self (he ▸ hq)
      rw [NameMap.getElem?_insert_of_ne _ _ hqp] at hm'
      have hxp : p ≠ x := fun he => Id.parent?_ne_self (he ▸ hp)
      obtain ⟨m'', hm'', hmem⟩ := h.parent hm hq hxp
      rw [hm', Option.some.injEq] at hm''
      exact hm'' ▸ h.id_eq hm ▸ List.mem_map_of_mem hmem
    intro k
    constructor
    · intro hk
      have hkp : k ≠ p := fun he => hk (he ▸ hp)
      rw [hsame, label, NameMap.getElem?_insert_of_ne _ _ hkp, label]
    · intro m' hk hm'
      rw [hp, Option.some.injEq] at hk
      rw [← hk, hm, Option.some.injEq] at hm'
      rw [hsame, ← hk, label_of_getElem? new, hm', withCurrent]

end SourceHistory.NodeIndex
