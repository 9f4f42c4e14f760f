import SourceHistory.Proofs.Diff.Advance

namespace SourceHistory.NodeIndex

open SourceHistory.Id (Within)

variable {before working middle after result : NodeIndex} {x k : String} {done ids : List String}
  {n : Node}

/-- Only one of the indexes has a node at `k`, or they have nodes of different kinds there. Its
subtree is exchanged as a whole, so what lies below needs no edit of its own. -/
def Moved (before after : NodeIndex) (k : String) : Prop := before.kindAt k ≠ after.kindAt k

instance : DecidablePred (Moved before after) := fun _ => inferInstanceAs (Decidable (_ ≠ _))

theorem structuralEdits_congr (hx : working.kindAt x = before.kindAt x) :
    structuralEdits working after x = structuralEdits before after x := by
  rw [kindAt, kindAt] at hx
  rw [structuralEdits, structuralEdits]
  cases hw : working[x]? <;> cases hb : before[x]? <;> cases after[x]? <;> simp_all

theorem structuralEdits_of_not_moved (hx : ¬ Moved working after x) :
    structuralEdits working after x = [] := by
  rw [Moved, not_not, kindAt, kindAt] at hx
  rw [structuralEdits]
  cases hw : working[x]? <;> cases ha : after[x]? <;> simp_all

namespace Transplants

theorem of_empty (h : Transplants working ∅ result x) (ht : after.Consistent)
    (hx : after[x]? = none) : Transplants working after result x where
  consistent := h.consistent
  inside := by
    intro k hw
    rw [h.inside k hw, label, label, ht.getElem?_eq_none_of_within hx hw]
    simp
  outside := h.outside
  parent := by
    intro p hp
    obtain ⟨m, ids, hm, hl, hids⟩ := h.parent p hp
    refine ⟨m, ids, hm, hl, fun hk => ?_⟩
    have hc : after.contains x = false := (NameMap.contains_eq_false_iff after x).2 hx
    rw [hids hk]
    simp [hc]

theorem trans {other : NodeIndex} (h : Transplants working other middle x)
    (h' : Transplants middle after result x) : Transplants working after result x where
  consistent := h'.consistent
  inside := h'.inside
  outside := fun k hw hp => (h'.outside k hw hp).trans (h.outside k hw hp)
  parent := by
    intro p hp
    obtain ⟨m, ids, hm, hl, hids⟩ := h.parent p hp
    obtain ⟨m', ids', hm', hl', hids'⟩ := h'.parent p hp
    rw [label_of_getElem? hm', Option.some.injEq, Prod.mk.injEq] at hl
    obtain ⟨hattr, hchild⟩ := hl
    refine ⟨m, ids', hm, hattr ▸ hl', fun hk => ?_⟩
    have hk' : m'.kind = .function := by rw [Node.kind, hattr, ← Node.kind, hk]
    rw [hids' hk', hchild, hids hk]
    simp

end Transplants

/-- A node can be removed and the node of another index added in its place, if the parents agree. -/
theorem exists_advance_exchange {current target : Node} (h : working.Consistent)
    (ht : after.Consistent) (hc : working[x]? = some current) (hn : after[x]? = some target)
    (hp : ∀ p m, Id.parent? x = some p → after[p]? = some m → working.kindAt p = some m.kind) :
    ∃ middle result, advance working (.removeNode x) = .ok middle ∧
      advance middle (.addNode target) = .ok result ∧ Transplants working after result x := by
  obtain ⟨middle, hadv, hremoved⟩ := exists_advance_removeNode h hc
  have hgone : middle[x]? = none := by
    rw [← kindAt_eq_none_iff, hremoved.kindAt_eq, if_pos (Within.refl x), kindAt_eq_none_iff]
    simp
  have hparent : ∀ p m, Id.parent? x = some p → after[p]? = some m →
      middle.kindAt p = some m.kind := by
    intro p m hpar hm
    rw [hremoved.kindAt_eq, if_neg (Id.not_within_of_parent? hpar), hp p m hpar hm]
  obtain ⟨result, hadv', hadded⟩ :=
    exists_advance_addNode hremoved.consistent ht hgone hn hparent
  exact ⟨middle, result, hadv, hadv', hremoved.trans hadded⟩

/-- The edits for an id that moved give it the subtree of the target, if the parents agree. -/
theorem exists_structuralEdits (h : working.Consistent) (ht : after.Consistent)
    (hp : ∀ p m, Id.parent? x = some p → after[p]? = some m → working.kindAt p = some m.kind)
    (hx : Moved working after x) :
    ∃ result, (structuralEdits working after x).foldlM advance working = .ok result ∧
      Transplants working after result x := by
  rw [structuralEdits]
  split
  · next current hc hn =>
    obtain ⟨result, hadv, hremoved⟩ := exists_advance_removeNode h hc
    exact ⟨result, (foldlM_cons_of_ok hadv).trans rfl, hremoved.of_empty ht hn⟩
  · next target hn hc =>
    obtain ⟨result, hadv, hadded⟩ := exists_advance_addNode h ht hn hc hp
    exact ⟨result, (foldlM_cons_of_ok hadv).trans rfl, hadded⟩
  · next current target hc hn =>
    have hkind : current.kind ≠ target.kind := by
      intro hk
      rw [Moved, kindAt_of_getElem? hc, kindAt_of_getElem? hn, hk] at hx
      exact hx rfl
    obtain ⟨middle, result, hadv, hadv', hexchanged⟩ := exists_advance_exchange h ht hc hn hp
    rw [if_neg hkind]
    exact ⟨result, (foldlM_cons_of_ok hadv).trans ((foldlM_cons_of_ok hadv').trans rfl), hexchanged⟩
  · next hc hn =>
    rw [Moved, kindAt_eq_none_iff.2 hc, kindAt_eq_none_iff.2 hn] at hx
    exact absurd rfl hx

theorem id_of_mem_structuralEdits (ht : after.Consistent) {e : Edit}
    (he : e ∈ structuralEdits working after x) : e.id = x := by
  rw [structuralEdits] at he
  split at he
  · rw [List.mem_singleton.1 he]
    rfl
  · next target _ hn =>
    rw [List.mem_singleton.1 he]
    exact ht.id_eq hn
  · next current target hc hn =>
    split at he
    · cases he
    · rcases List.mem_cons.1 he with rfl | he
      · rfl
      · rw [List.mem_singleton.1 he]
        exact ht.id_eq hn
  · cases he

/-- The additions and removals for `k` in the whole difference. -/
def moves (before after : NodeIndex) (k : String) : List Edit :=
  if Id.Topmost (Moved before after) k then structuralEdits before after k else []

theorem moves_of_not_moved (h : ¬ Moved before after k) : moves before after k = [] :=
  if_neg fun htop => h htop.1

/-- `k` lies in the subtree of an id that moved and was visited. -/
def Touched (before after : NodeIndex) (done : List String) (k : String) : Prop :=
  ∃ r ∈ done, Moved before after r ∧ Within k r

theorem touched_append_singleton :
    Touched before after (done ++ [x]) k ↔
      Touched before after done k ∨ Moved before after x ∧ Within k x := by
  simp only [Touched, List.mem_append, List.mem_singleton, or_and_right, exists_or, exists_eq_left]

theorem Touched.of_within (h : Touched before after done x) (hw : Within k x) :
    Touched before after done k := by
  obtain ⟨r, hr, hm, hx⟩ := h
  exact ⟨r, hr, hm, hw.trans hx⟩

/-- The parameters of `n` after the ids in `done`: those that are gone are dropped, the new ones
follow in the order in which they came. -/
def visitedParameters (before after : NodeIndex) (done : List String) (k : String) (n : Node) :
    List String :=
  (n.childIds.filter fun c => c ∉ done ∨ after.contains c = true) ++
    done.filter fun c => Id.parent? c = some k ∧ before.contains c = false ∧ after.contains c = true

/-- The working copy once the ids in `done` were visited, parents first: the subtrees of those that
moved are those of the target, and elsewhere only the children of a node have changed. -/
structure Arranged (before after : NodeIndex) (done : List String) (working : NodeIndex) : Prop where
  consistent : working.Consistent
  inside : ∀ k, Touched before after done k → working.label k = after.label k
  attributes : ∀ k, ¬ Touched before after done k →
    (working.label k).map Prod.fst = (before.label k).map Prod.fst
  parameters : ∀ k n, ¬ Touched before after done k → before[k]? = some n → n.kind = .function →
    working.label k = some (n.attributes, visitedParameters before after done k n)

namespace Arranged

theorem start (hb : before.Consistent) : Arranged before after [] before where
  consistent := hb
  inside := by
    intro k ht
    obtain ⟨r, hr, -⟩ := ht
    cases hr
  attributes := fun _ _ => rfl
  parameters := by
    intro k n _ hk _
    have hall : (n.childIds.filter fun c => c ∉ [] ∨ after.contains c = true) = n.childIds := by
      simp
    rw [visitedParameters, hall, List.filter_nil, List.append_nil, label_of_getElem? hk]

theorem kindAt_of_not_touched (h : Arranged before after done working)
    (hk : ¬ Touched before after done k) : working.kindAt k = before.kindAt k := by
  have hmap (i : NodeIndex) : i.kindAt k = ((i.label k).map Prod.fst).map Attributes.kind := by
    rw [kindAt_eq_map_label, Option.map_map]
    rfl
  rw [hmap, hmap, h.attributes k hk]

/-- An id that was visited, if it had to be, has its kind. -/
theorem kindAt_eq (h : Arranged before after done working)
    (hk : Moved before after k → k ∈ done) : working.kindAt k = after.kindAt k := by
  by_cases ht : Touched before after done k
  · exact kindAt_eq_of_label_eq (h.inside k ht)
  · rw [h.kindAt_of_not_touched ht]
    by_contra hm
    exact ht ⟨k, hk hm, hm, Within.refl k⟩

theorem moved_iff (h : Arranged before after done working) :
    Moved working after x ↔ Moved before after x ∧ ¬ Touched before after done x := by
  by_cases ht : Touched before after done x
  · have hkind : working.kindAt x = after.kindAt x := kindAt_eq_of_label_eq (h.inside x ht)
    simp [Moved, hkind, ht]
  · simp [Moved, h.kindAt_of_not_touched ht, ht]

end Arranged

theorem visitedParameters_eq (hb : before.Consistent) (hk : before[k]? = some n)
    (hx : Id.parent? x = some k → before.contains x = after.contains x) :
    visitedParameters before after (done ++ [x]) k n = visitedParameters before after done k n := by
  have hkept : ∀ c ∈ n.childIds, (c ∉ done ++ [x] ∨ after.contains c = true) ↔
      c ∉ done ∨ after.contains c = true := by
    intro c hc
    obtain ⟨hp, m, hm⟩ := (hb.mem_childIds_iff hk).1 hc
    by_cases he : c = x
    · have hold : before.contains c = true := (NameMap.contains_eq_true_iff before c).2 ⟨m, hm⟩
      have hnew : after.contains c = true := by
        rw [← hold, he, hx (he ▸ hp)]
      simp [hnew]
    · simp [he]
  have hadded : ¬ (Id.parent? x = some k ∧ before.contains x = false ∧ after.contains x = true) := by
    intro hand
    obtain ⟨hp, hold, hnew⟩ := hand
    rw [hx hp, hnew] at hold
    cases hold
  rw [visitedParameters, visitedParameters, List.filter_append,
    List.filter_cons_of_neg (by simpa using hadded), List.filter_nil, List.append_nil,
    List.filter_congr fun c hc => decide_eq_decide.2 (hkept c hc)]

theorem visitedParameters_of_contains_ne (hb : before.Consistent) (hk : before[k]? = some n)
    (hp : Id.parent? x = some k) (hd : x ∉ done) (hx : before.contains x = !after.contains x) :
    visitedParameters before after (done ++ [x]) k n =
      (visitedParameters before after done k n).filter (· ≠ x) ++ [x].filter (after.contains ·) := by
  have hkept : ∀ c ∈ n.childIds, (c ∉ done ++ [x] ∨ after.contains c = true) ↔
      c ≠ x ∧ (c ∉ done ∨ after.contains c = true) := by
    intro c hc
    obtain ⟨-, m, hm⟩ := (hb.mem_childIds_iff hk).1 hc
    by_cases he : c = x
    · have hold : before.contains x = true :=
        (NameMap.contains_eq_true_iff before x).2 ⟨m, he ▸ hm⟩
      have hnew : after.contains x = false := by
        rw [hold] at hx
        simpa using hx.symm
      simp [he, hnew]
    · simp [he]
  have hrest : ∀ c ∈ done, c ≠ x := fun c hc he => hd (he ▸ hc)
  have hkept' : (n.childIds.filter fun c => c ∉ done ++ [x] ∨ after.contains c = true) =
      (n.childIds.filter fun c => c ∉ done ∨ after.contains c = true).filter (· ≠ x) := by
    rw [List.filter_filter]
    apply List.filter_congr
    intro c hc
    rw [← Bool.decide_and]
    exact decide_eq_decide.2 (hkept c hc)
  have hrest' : ∀ p : String → Bool, (done.filter p).filter (· ≠ x) = done.filter p := by
    intro p
    rw [List.filter_eq_self]
    intro c hc
    exact decide_eq_true (hrest c (List.mem_filter.1 hc).1)
  rw [visitedParameters, visitedParameters, List.filter_append, List.filter_append, hkept', hrest',
    List.append_assoc]
  congr 2
  apply List.filter_congr
  intro c hc
  rw [List.mem_singleton.1 hc, hx]
  cases after.contains x <;> simp [hp]

theorem kindAt_of_parameter (h : working.Consistent) (hp : Id.parent? x = some k)
    (hk : working.kindAt k = some .function) (hx : working.contains x = true) :
    working.kindAt x = some .var := by
  obtain ⟨n, hn⟩ := (NameMap.contains_eq_true_iff working x).1 hx
  obtain ⟨f, hf, hmem⟩ := h.parent hn hp
  rw [kindAt_of_getElem? hf, Option.some.injEq] at hk
  rw [kindAt_of_getElem? hn, (h.wellFormed hf).kind_of_function hk hmem]

/-- A parameter of a function that both sides have moves by being on one side only. -/
theorem contains_eq_not_of_moved (hb : before.Consistent) (ha : after.Consistent)
    (hp : Id.parent? x = some k) (hk : before.kindAt k = some .function)
    (hk' : after.kindAt k = some .function) (hx : Moved before after x) :
    before.contains x = !after.contains x := by
  rw [Bool.eq_not_iff]
  intro he
  apply hx
  cases hc : after.contains x with
  | true =>
    rw [hc] at he
    rw [kindAt_of_parameter hb hp hk he, kindAt_of_parameter ha hp hk' hc]
  | false =>
    rw [hc] at he
    rw [kindAt_eq_none_iff.2 ((NameMap.contains_eq_false_iff before x).1 he),
      kindAt_eq_none_iff.2 ((NameMap.contains_eq_false_iff after x).1 hc)]

namespace Arranged

theorem skip (h : Arranged before after done working) (hb : before.Consistent) (hd : x ∉ done)
    (hx : ¬ Moved working after x) : Arranged before after (done ++ [x]) working := by
  rw [h.moved_iff, not_and, not_not] at hx
  have htouched : ∀ k, Touched before after (done ++ [x]) k ↔ Touched before after done k := by
    intro k
    rw [touched_append_singleton, or_iff_left_iff_imp]
    exact fun hm => (hx hm.1).of_within hm.2
  refine ⟨h.consistent, fun k hk => h.inside k ((htouched k).1 hk),
    fun k hk => h.attributes k (mt (htouched k).2 hk), fun k n hk hn hf => ?_⟩
  rw [htouched] at hk
  rw [h.parameters k n hk hn hf, visitedParameters_eq hb hn fun hp => ?_]
  apply contains_eq_of_kindAt_eq
  by_contra hm
  -- Otherwise the parent would lie in the same moved subtree.
  obtain ⟨r, hr, hmr, hw⟩ := hx hm
  rcases (Id.within_iff_of_parent?_some hp).1 hw with rfl | hw
  · exact hd hr
  · exact hk ⟨r, hr, hmr, hw⟩

theorem step (h : Arranged before after done working) (hb : before.Consistent)
    (ha : after.Consistent) (hd : x ∉ done)
    (hdone : ∀ p, Id.parent? x = some p → Moved before after p → p ∈ done)
    (hx : Moved working after x) (ht : Transplants working after result x) :
    Arranged before after (done ++ [x]) result := by
  obtain ⟨hmoved, hfree⟩ := h.moved_iff.1 hx
  refine ⟨ht.consistent, fun k hk => ?_, fun k hk => ?_, fun k n hk hn hf => ?_⟩ <;>
    rw [touched_append_singleton] at hk
  · by_cases hw : Within k x
    · exact ht.inside k hw
    · have hk : Touched before after done k := hk.resolve_right fun hand => hw hand.2
      have hp : Id.parent? x ≠ some k := fun hp => hfree (hk.of_within (.of_parent? hp))
      rw [ht.outside k hw hp, h.inside k hk]
  · obtain ⟨hk, hw⟩ := not_or.1 hk
    have hw : ¬ Within k x := fun hw' => hw ⟨hmoved, hw'⟩
    rw [← h.attributes k hk]
    by_cases hp : Id.parent? x = some k
    · obtain ⟨m, ids, hm, hl, -⟩ := ht.parent k hp
      rw [hl, label_of_getElem? hm, Option.map_some, Option.map_some]
    · rw [ht.outside k hw hp]
  · obtain ⟨hk, hw⟩ := not_or.1 hk
    have hw : ¬ Within k x := fun hw' => hw ⟨hmoved, hw'⟩
    have hold := h.parameters k n hk hn hf
    by_cases hp : Id.parent? x = some k
    · have hbefore : before.kindAt k = some .function := by
        rw [kindAt_of_getElem? hn, hf]
      have hkind : working.kindAt k = some .function := by
        rw [h.kindAt_of_not_touched hk, hbefore]
      have hafter : after.kindAt k = some .function := by
        rw [← h.kindAt_eq (hdone k hp), hkind]
      obtain ⟨m, ids, hm, hl, hids⟩ := ht.parent k hp
      rw [label_of_getElem? hm, Option.some.injEq, Prod.mk.injEq] at hold
      rw [kindAt_of_getElem? hm, Option.some.injEq] at hkind
      have hne := contains_eq_not_of_moved hb ha hp hbefore hafter hmoved
      rw [hl, hids hkind, hold.1, hold.2, visitedParameters_of_contains_ne hb hn hp hd hne]
    · rw [ht.outside k hw hp, hold, visitedParameters_eq hb hn fun hp' => absurd hp' hp]

/-- Below an id that moved nothing is left to do. -/
theorem structuralEdits_eq (h : Arranged before after done working) (hd : x ∉ done)
    (hdone : ∀ r, Moved before after r → r.utf8ByteSize < x.utf8ByteSize → r ∈ done) :
    structuralEdits working after x = moves before after x := by
  rw [moves]
  split
  · next htop =>
    apply structuralEdits_congr
    apply h.kindAt_of_not_touched
    intro htouched
    obtain ⟨r, hr, hm, hw⟩ := htouched
    rcases hw with rfl | hw
    · exact hd hr
    · exact htop.2 r hw hm
  · next htop =>
    apply structuralEdits_of_not_moved
    rw [h.moved_iff]
    intro hand
    obtain ⟨hm, hfree⟩ := hand
    refine htop ⟨hm, fun a ha hma => ?_⟩
    exact hfree ⟨a, hdone a hma (Id.utf8ByteSize_lt_of_mem_ancestors ha), hma, .of_mem_ancestors ha⟩

/-- One round: the edits are those of the two sides, and the working copy gets on by one id. -/
theorem exists_round (h : Arranged before after done working) (hb : before.Consistent)
    (ha : after.Consistent) (hd : x ∉ done)
    (hdone : ∀ r, Moved before after r → r.utf8ByteSize < x.utf8ByteSize → r ∈ done) :
    ∃ result, structuralEdits working after x = moves before after x ∧
      (moves before after x).foldlM advance working = .ok result ∧
      Arranged before after (done ++ [x]) result := by
  have hedits := h.structuralEdits_eq hd hdone
  have hparent : ∀ p, Id.parent? x = some p → Moved before after p → p ∈ done :=
    fun p hp hm => hdone p hm (Id.utf8ByteSize_parent?_lt hp)
  by_cases hm : Moved working after x
  · have hagree : ∀ p m, Id.parent? x = some p → after[p]? = some m →
        working.kindAt p = some m.kind := by
      intro p m hp hpm
      rw [h.kindAt_eq (hparent p hp), kindAt_of_getElem? hpm]
    obtain ⟨result, hfold, ht⟩ := exists_structuralEdits h.consistent ha hagree hm
    exact ⟨result, hedits, hedits ▸ hfold, h.step hb ha hd hparent hm ht⟩
  · rw [structuralEdits_of_not_moved hm] at hedits ⊢
    exact ⟨working, hedits, hedits ▸ rfl, h.skip hb hd hm⟩

end Arranged

theorem exists_structuralPass_from (hb : before.Consistent) (ha : after.Consistent)
    (h : Arranged before after done working) (hnd : (done ++ ids).Nodup)
    (hsorted : ids.Pairwise fun a b => a.utf8ByteSize ≤ b.utf8ByteSize)
    (hall : ∀ r, Moved before after r → r ∈ done ∨ r ∈ ids) :
    ∃ result, structuralPass after working ids = .ok (ids.flatMap (moves before after), result) ∧
      (ids.flatMap (moves before after)).foldlM advance working = .ok result ∧
      Arranged before after (done ++ ids) result := by
  induction ids generalizing done working with
  | nil => exact ⟨working, rfl, rfl, by rwa [List.append_nil]⟩
  | cons x ids ih =>
    obtain ⟨hx, hsorted⟩ := List.pairwise_cons.1 hsorted
    have hd : x ∉ done := by
      intro hmem
      exact (List.nodup_append.1 hnd).2.2 x hmem x List.mem_cons_self rfl
    have hdone : ∀ r, Moved before after r → r.utf8ByteSize < x.utf8ByteSize → r ∈ done := by
      intro r hr hlt
      rcases hall r hr with hmem | hmem
      · exact hmem
      · rcases List.mem_cons.1 hmem with rfl | hmem
        · exact absurd hlt (Nat.lt_irrefl _)
        · exact absurd (hx r hmem) (Nat.not_le.2 hlt)
    obtain ⟨middle, hedits, hfold, hmiddle⟩ := h.exists_round hb ha hd hdone
    have hnd' : (done ++ [x] ++ ids).Nodup := by
      rwa [List.append_assoc, List.singleton_append]
    have hall' : ∀ r, Moved before after r → r ∈ done ++ [x] ∨ r ∈ ids := by
      intro r hr
      rw [List.mem_append, List.mem_singleton, or_assoc, ← List.mem_cons]
      exact hall r hr
    obtain ⟨result, hpass, hrest, hresult⟩ := ih hmiddle hnd' hsorted hall'
    refine ⟨result, ?_, (foldlM_append_of_ok hfold).trans hrest, ?_⟩
    · simp only [structuralPass, hedits, hfold, hpass, bind, Except.bind]
      rfl
    · rwa [List.append_assoc, List.singleton_append] at hresult

/-- The first pass exchanges the subtrees of the topmost ids that moved, once each. -/
theorem exists_structuralPass (hb : before.Consistent) (ha : after.Consistent) (hnd : ids.Nodup)
    (hsorted : ids.Pairwise fun a b => a.utf8ByteSize ≤ b.utf8ByteSize)
    (hall : ∀ r, Moved before after r → r ∈ ids) :
    ∃ result, structuralPass after before ids = .ok (ids.flatMap (moves before after), result) ∧
      (ids.flatMap (moves before after)).foldlM advance before = .ok result ∧
      Arranged before after ids result :=
  exists_structuralPass_from hb ha (.start hb) hnd hsorted fun r hr => Or.inr (hall r hr)

end SourceHistory.NodeIndex
