import SourceHistory.Proofs.Edit.Apply

namespace SourceHistory

open SourceHistory.Id (Within)

variable {index other staged : NodeIndex} {x k path : String} {n : Node} {e : Edit}

namespace Edit

open NodeIndex

theorem getElem?_stage_of_not_within (h : index.Sound) (hc : e.check = .ok ())
    (hs : stage index e = .ok staged) (hk : ¬ Within k e.id) : staged[k]? = index[k]? := by
  rcases stage_cases hs with ⟨n, rfl, -, -, rfl⟩ | ⟨x, n, rfl, -, -, rfl⟩ | ⟨n, r, he, hn, hr, -, rfl⟩
  · exact getElem?_insertSubtree_of_not_within hc hk
  · apply getElem?_eraseAll_of_not_within h.direct
    intro y hy
    rw [List.mem_singleton.1 hy]
    exact hk
  · apply NameMap.getElem?_insert_of_ne
    rintro rfl
    rw [(id_kind_of_revise he hr).1, h.id_eq hn] at hk
    exact hk (Within.refl e.id)

/-- Only the node, what lies within it and its ancestors can change. -/
theorem getElem?_applyTo_of_unrelated (h : index.Sound) (hc : e.check = .ok ())
    (hw : ¬ Within k e.id) (ha : k ∉ Id.ancestors e.id) :
    (e.applyTo index).state[k]? = index[k]? := by
  rw [applyTo]
  split
  · rfl
  · next staged hs =>
    rw [rebuildAncestors, getElem?_rebuildChain_of_not_mem ha,
      getElem?_stage_of_not_within h hc hs hw]

theorem getElem?_applyTo_of_sourcePath_ne (h : index.Sound) (hc : e.check = .ok ())
    (hk : Id.sourcePath k ≠ e.sourcePath) : (e.applyTo index).state[k]? = index[k]? := by
  apply getElem?_applyTo_of_unrelated h hc
  · exact fun hw => hk hw.sourcePath_eq
  · intro ha
    have hw : Within e.id k := Or.inr ha
    exact hk hw.sourcePath_eq.symm

/-- An attribute edit keeps the set of indexed ids. -/
theorem contains_applyTo (h : index.Consistent) (he : e.isAttributeEdit = true) (k : String) :
    (e.applyTo index).state.contains k = index.contains k := by
  rw [applyTo]
  split
  · rfl
  · next staged hs =>
    obtain ⟨n, r, hn, -, -, rfl⟩ := exists_of_stage_attributeEdit h he hs
    rw [rebuildAncestors, contains_rebuildChain, NameMap.contains_insert_of_some _ hn]

/-- An attribute edit keeps every entry below its node. -/
theorem getElem?_applyTo_of_below (h : index.Consistent) (he : e.isAttributeEdit = true)
    (hw : Within k e.id) (hk : k ≠ e.id) : (e.applyTo index).state[k]? = index[k]? := by
  have ha : k ∉ Id.ancestors e.id := fun ha => Id.not_within_of_mem_ancestors ha hw
  rw [applyTo]
  split
  · rfl
  · next staged hs =>
    obtain ⟨n, r, -, -, -, rfl⟩ := exists_of_stage_attributeEdit h he hs
    rw [rebuildAncestors, getElem?_rebuildChain_of_not_mem ha, NameMap.getElem?_insert_of_ne _ _ hk]

end Edit

namespace NodeIndex

/-- The entries of the unit `path` are the same in both indexes. -/
def AgreeOn (path : String) (index other : NodeIndex) : Prop :=
  ∀ k, Id.sourcePath k = path → index[k]? = other[k]?

theorem AgreeOn.insert (h : AgreeOn path index other) (x : String) (n : Node) :
    AgreeOn path (index.insert x n) (other.insert x n) := by
  intro k hk
  rw [NameMap.getElem?_insert, NameMap.getElem?_insert, h k hk]

theorem AgreeOn.insertSubtree (h : AgreeOn path index other) (n : Node) :
    AgreeOn path (insertSubtree index n) (insertSubtree other n) := by
  rw [NodeIndex.insertSubtree, NodeIndex.insertSubtree]
  generalize n.preorder = ns
  induction ns generalizing index other with
  | nil => exact h
  | cons m ns ih => exact ih (h.insert m.id m)

theorem AgreeOn.eraseSubtree (h : AgreeOn path index other) (hi : index.Consistent)
    (ho : other.Consistent) (x : String) :
    AgreeOn path (eraseSubtree index x) (eraseSubtree other x) := by
  intro k hk
  rw [hi.getElem?_eraseSubtree, ho.getElem?_eraseSubtree, h k hk]

theorem AgreeOn.checkChain (h : AgreeOn path index other) {ids : List String}
    (hids : ∀ a ∈ ids, Id.sourcePath a = path) :
    checkChain index x ids = checkChain other x ids := by
  induction ids generalizing x with
  | nil => rfl
  | cons a ids ih =>
    obtain ⟨ha, hids⟩ := List.forall_mem_cons.1 hids
    rw [NodeIndex.checkChain, NodeIndex.checkChain, ih hids,
      Std.ExtTreeMap.contains_eq_isSome_getElem?, h a ha,
      ← Std.ExtTreeMap.contains_eq_isSome_getElem?]

theorem AgreeOn.checkAncestors (h : AgreeOn path index other) (hx : Id.sourcePath x = path) :
    checkAncestors index x = checkAncestors other x := by
  apply h.checkChain
  intro a ha
  have hw : Within x a := Or.inr ha
  rw [← hw.sourcePath_eq, hx]

theorem AgreeOn.rebuildAncestors (h : AgreeOn path index other) (hx : Id.sourcePath x = path) :
    (rebuildAncestors index x).error? = (rebuildAncestors other x).error? ∧
      AgreeOn path (rebuildAncestors index x).state (rebuildAncestors other x).state := by
  induction x using Id.parent_induction generalizing index other with
  | unit x hp =>
    rw [rebuildAncestors_of_parent?_none hp, rebuildAncestors_of_parent?_none hp]
    exact ⟨rfl, h⟩
  | entity x p hp ih =>
    have hpp : Id.sourcePath p = path := by rw [← Id.sourcePath_of_parent?_some hp, hx]
    simp only [NodeIndex.rebuildAncestors, Id.ancestors_of_parent?_some hp, rebuildChain, h p hpp,
      h x hx]
    cases other[p]? with
    | none => exact ⟨rfl, h⟩
    | some m =>
      cases hm : m.setChild x other[x]? with
      | error error =>
        simp only [hm]
        exact ⟨rfl, h⟩
      | ok m' =>
        simp only [hm]
        exact ih (h.insert p m') hpp

end NodeIndex

namespace Edit

open NodeIndex

theorem resolveNames_congr {f : String} (h : AgreeOn path index other)
    (hf : Id.sourcePath f = path) (seen names : List String) :
    resolveNames index f seen names = resolveNames other f seen names := by
  induction names generalizing seen with
  | nil => rfl
  | cons name names ih =>
    have hchild : Id.sourcePath (Id.child f name) = path := by rw [Id.sourcePath_child, hf]
    rw [resolveNames, resolveNames, h _ hchild, ih]

theorem revise_congr (h : AgreeOn path index other) (hn : Id.sourcePath n.id = path) :
    revise index n e = revise other n e := by
  cases e with
  | editFunction id modifierEdits parameterEdits bodyEdits =>
    simp only [revise, resolveParameters, resolveNames_congr h hn]
  | _ => rfl

theorem checkParent_congr (h : AgreeOn path index other) (hn : Id.sourcePath n.id = path) :
    checkParent index n = checkParent other n := by
  rw [checkParent, checkParent]
  cases hp : Id.parent? n.id with
  | none => rfl
  | some p =>
    have hpp : Id.sourcePath p = path := by rw [← Id.sourcePath_of_parent?_some hp, hn]
    simp only [h p hpp, h.checkAncestors hpp]

/-- Indexes that agree on the unit of an edit take it the same way. -/
theorem stage_congr (hi : index.Consistent) (ho : other.Consistent)
    (h : AgreeOn e.sourcePath index other) :
    (∃ error, stage index e = .error error ∧ stage other e = .error error) ∨
    ∃ staged staged', stage index e = .ok staged ∧ stage other e = .ok staged' ∧
      AgreeOn e.sourcePath staged staged' := by
  have hx : index[e.id]? = other[e.id]? := h e.id rfl
  have hcont : index.contains e.id = other.contains e.id := by
    rw [Std.ExtTreeMap.contains_eq_isSome_getElem?, hx,
      ← Std.ExtTreeMap.contains_eq_isSome_getElem?]
  have hanc : checkAncestors index e.id = checkAncestors other e.id := h.checkAncestors rfl
  by_cases he : e.isAttributeEdit = true
  · rw [stage_attributeEdit he, stage_attributeEdit he, hx, hanc]
    cases hn : other[e.id]? with
    | none => exact Or.inl ⟨_, rfl, rfl⟩
    | some n =>
      have hid : Id.sourcePath n.id = e.sourcePath := by rw [ho.id_eq hn, sourcePath]
      simp only [revise_congr h hid]
      cases revise other n e with
      | error error => exact Or.inl ⟨error, rfl, rfl⟩
      | ok r =>
        cases checkAncestors other e.id with
        | error error => exact Or.inl ⟨error, rfl, rfl⟩
        | ok _ => exact Or.inr ⟨_, _, rfl, rfl, h.insert r.id r⟩
  · cases e with
    | addNode n =>
      change index.contains n.id = other.contains n.id at hcont
      rw [stage, stage, hcont, checkParent_congr h rfl]
      cases other.contains n.id with
      | true => exact Or.inl ⟨_, rfl, rfl⟩
      | false =>
        cases checkParent other n with
        | error error => exact Or.inl ⟨error, rfl, rfl⟩
        | ok _ => exact Or.inr ⟨_, _, rfl, rfl, h.insertSubtree n⟩
    | removeNode x =>
      change index.contains x = other.contains x at hcont
      change checkAncestors index x = checkAncestors other x at hanc
      rw [stage, stage, hcont, hanc]
      cases other.contains x with
      | false => exact Or.inl ⟨_, rfl, rfl⟩
      | true =>
        cases checkAncestors other x with
        | error error => exact Or.inl ⟨error, rfl, rfl⟩
        | ok _ => exact Or.inr ⟨_, _, rfl, rfl, h.eraseSubtree hi ho x⟩
    | _ => exact absurd rfl he

theorem applyTo_congr (hi : index.Consistent) (ho : other.Consistent)
    (h : AgreeOn e.sourcePath index other) :
    (e.applyTo index).error? = (e.applyTo other).error? ∧
      AgreeOn e.sourcePath (e.applyTo index).state (e.applyTo other).state := by
  rw [applyTo, applyTo]
  rcases stage_congr hi ho h with ⟨error, hs, hs'⟩ | ⟨staged, staged', hs, hs', hagree⟩
  · rw [hs, hs']
    exact ⟨rfl, h⟩
  · rw [hs, hs']
    exact hagree.rebuildAncestors rfl

end Edit

end SourceHistory
