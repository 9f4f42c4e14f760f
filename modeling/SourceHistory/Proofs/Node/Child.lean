import Mathlib.Data.List.Nodup
import SourceHistory.Proofs.Node.WellFormed

namespace SourceHistory.Node

variable {x : String} {child? : Option Node} {ns : List Node} {c n r : Node}

/-- Up to order, `setMember` drops the child `x` and adds its new version. -/
theorem setMember_perm (hs : (ns.map Node.id).Pairwise (· < ·)) :
    (setMember x child? ns).Perm (child?.toList ++ ns.filter fun n => n.id ≠ x) := by
  induction ns with
  | nil => simp [setMember]
  | cons n ns ih =>
    obtain ⟨hlt, hs⟩ := List.pairwise_cons.1 hs
    have keep (h : x ≤ n.id) : (ns.filter fun m => m.id ≠ x) = ns := by
      rw [List.filter_eq_self]
      intro m hm
      exact decide_eq_true (h.trans_lt (hlt m.id (List.mem_map_of_mem hm))).ne'
    rw [setMember]
    split
    · next hn =>
      rw [List.filter_cons_of_pos (by simp [hn.ne])]
      exact ((ih hs).cons n).trans List.perm_middle.symm
    · split
      · next he =>
        rw [List.filter_cons_of_neg (by simp [he]), keep he.ge]
      · next hn he =>
        rw [List.filter_cons_of_pos (by simp [he]), keep (not_lt.1 hn)]

theorem setMember_ids_sorted (hs : (ns.map Node.id).Pairwise (· < ·))
    (hc : ∀ c, child? = some c → c.id = x) :
    ((setMember x child? ns).map Node.id).Pairwise (· < ·) := by
  have hid : ∀ m ∈ child?.toList, m.id = x := by
    intro m hm
    exact hc m (Option.mem_toList.1 hm)
  induction ns with
  | nil => cases child? <;> simp [setMember]
  | cons n ns ih =>
    obtain ⟨hlt, hs'⟩ := List.pairwise_cons.1 hs
    have hlt' : ∀ m ∈ ns, n.id < m.id := fun m hm => hlt m.id (List.mem_map_of_mem hm)
    rw [setMember]
    split
    · next hn =>
      refine List.pairwise_cons.2 ⟨?_, ih hs'⟩
      intro k hk
      obtain ⟨m, hm, rfl⟩ := List.mem_map.1 hk
      rcases List.mem_append.1 ((setMember_perm hs').mem_iff.1 hm) with hm | hm
      · exact (hid m hm) ▸ hn
      · exact hlt' m (List.mem_filter.1 hm).1
    · split
      · next he => cases child? <;> simp_all
      · next hn he =>
        have hx : x < n.id := lt_of_le_of_ne (not_lt.1 hn) (Ne.symm he)
        cases child? with
        | none => exact hs
        | some c =>
          refine List.pairwise_cons.2 ⟨?_, hs⟩
          intro k hk
          obtain ⟨m, hm, rfl⟩ := List.mem_map.1 hk
          rw [hc c rfl]
          rcases List.mem_cons.1 hm with rfl | hm
          · exact hx
          · exact hx.trans (hlt' m hm)

theorem setMember_ids_of_mem (hs : (ns.map Node.id).Pairwise (· < ·)) (hc : c.id = x)
    (hm : x ∈ ns.map Node.id) : (setMember x (some c) ns).map Node.id = ns.map Node.id := by
  induction ns with
  | nil => cases hm
  | cons n ns ih =>
    obtain ⟨hlt, hs'⟩ := List.pairwise_cons.1 hs
    rw [setMember]
    split
    · next hn =>
      have hm' : x ∈ ns.map Node.id := (List.mem_cons.1 hm).resolve_left hn.ne'
      rw [List.map_cons, List.map_cons, ih hs' hm']
    · split
      · next he => simp [hc, he]
      · next hn he =>
        have hm' : x ∈ ns.map Node.id := (List.mem_cons.1 hm).resolve_left (Ne.symm he)
        exact absurd (hlt x hm') hn

theorem filter_toList {keep : Node → Bool} (hc : ∀ c, child? = some c → keep c = false) :
    child?.toList.filter keep = [] := by
  rw [List.filter_eq_nil_iff]
  intro c hm
  simp [hc c (Option.mem_toList.1 hm)]

/-- What is not about the child `x` passes through in its order. -/
theorem filter_setMember {keep : Node → Bool} (hc : ∀ c, child? = some c → keep c = false)
    (hx : ∀ n ∈ ns, n.id = x → keep n = false) :
    (setMember x child? ns).filter keep = ns.filter keep := by
  have hgone := filter_toList hc
  induction ns with
  | nil => exact hgone
  | cons n ns ih =>
    obtain ⟨hn, hx⟩ := List.forall_mem_cons.1 hx
    rw [setMember]
    split
    · rw [List.filter_cons, List.filter_cons, ih hx]
    · split
      · next he =>
        rw [List.filter_append, hgone, List.nil_append, List.filter_cons_of_neg (by simp [hn he])]
      · rw [List.filter_append, hgone, List.nil_append]

theorem setParameter_perm (hnd : (ns.map Node.id).Nodup) :
    (setParameter x child? ns).Perm (child?.toList ++ ns.filter fun n => n.id ≠ x) := by
  induction ns with
  | nil => simp [setParameter]
  | cons n ns ih =>
    obtain ⟨hn, hnd⟩ := List.nodup_cons.1 hnd
    rw [setParameter]
    split
    · next he =>
      have keep : (ns.filter fun m => m.id ≠ x) = ns := by
        rw [List.filter_eq_self]
        intro m hm
        exact decide_eq_true fun hx => hn (he ▸ hx ▸ List.mem_map_of_mem hm)
      rw [List.filter_cons_of_neg (by simp [he]), keep]
    · next he =>
      rw [List.filter_cons_of_pos (by simp [he])]
      exact ((ih hnd).cons n).trans List.perm_middle.symm

theorem setParameter_ids_of_mem (hc : c.id = x) (hm : x ∈ ns.map Node.id) :
    (setParameter x (some c) ns).map Node.id = ns.map Node.id := by
  induction ns with
  | nil => cases hm
  | cons n ns ih =>
    rw [setParameter]
    split
    · next he => simp [hc, he]
    · next he =>
      have hm' : x ∈ ns.map Node.id := (List.mem_cons.1 hm).resolve_left (Ne.symm he)
      rw [List.map_cons, List.map_cons, ih hm']

theorem setParameter_ids (hnd : (ns.map Node.id).Nodup)
    (hnew : child?.isSome = true → x ∉ ns.map Node.id) :
    (setParameter x child? ns).map Node.id =
      (ns.map Node.id).filter (· ≠ x) ++ child?.toList.map Node.id := by
  induction ns with
  | nil => simp [setParameter]
  | cons n ns ih =>
    obtain ⟨hn, hnd⟩ := List.nodup_cons.1 hnd
    rw [setParameter, List.map_cons]
    split
    · next he =>
      have hnone : child? = none := by
        rw [← Option.not_isSome_iff_eq_none]
        exact fun hs => hnew hs (he ▸ List.mem_cons_self)
      have hkeep : (ns.map Node.id).filter (· ≠ x) = ns.map Node.id := by
        rw [List.filter_eq_self]
        intro a ha
        exact decide_eq_true fun hax => hn (he ▸ hax ▸ ha)
      rw [List.filter_cons_of_neg (by simp [he]), hkeep, hnone]
      simp
    · next he =>
      rw [List.filter_cons_of_pos (by simp [he]), List.map_cons,
        ih hnd fun hs hm => hnew hs (List.mem_cons_of_mem _ hm), List.cons_append]

theorem filter_setParameter {keep : Node → Bool} (hc : ∀ c, child? = some c → keep c = false)
    (hx : ∀ n ∈ ns, n.id = x → keep n = false) :
    (setParameter x child? ns).filter keep = ns.filter keep := by
  have hgone := filter_toList hc
  induction ns with
  | nil => exact hgone
  | cons n ns ih =>
    obtain ⟨hn, hx⟩ := List.forall_mem_cons.1 hx
    rw [setParameter]
    split
    · next he =>
      rw [List.filter_append, hgone, List.nil_append, List.filter_cons_of_neg (by simp [hn he])]
    · rw [List.filter_cons, List.filter_cons, ih hx]

theorem WellFormed.children_of_var (h : n.WellFormed) (hk : n.kind = .var) : n.children = [] := by
  rw [List.eq_nil_iff_forall_not_mem]
  intro c hc
  have hf := h.fits c hc
  rw [hk] at hf
  cases hf

theorem WellFormed.eq_of_mem_preorder_var (h : n.WellFormed) (hk : n.kind = .var)
    (hc : c ∈ n.preorder) : c = n := by
  rcases mem_preorder_iff.1 hc with rfl | ⟨d, hd, -⟩
  · rfl
  · rw [h.children_of_var hk] at hd
    cases hd

theorem WellFormed.kind_of_function (h : n.WellFormed) (hk : n.kind = .function)
    (hc : c ∈ n.children) : c.kind = .var := by
  have hf := h.fits c hc
  rw [hk] at hf
  exact of_decide_eq_true hf

theorem WellFormed.withAttributes (h : n.WellFormed) {a : Attributes} (ha : a.kind = n.kind) :
    ({ n with attributes := a } : Node).WellFormed := by
  refine ⟨?_, h.direct, h.nodup, ?_, ?_⟩
  · rw [Node.kind, ha]
    exact h.id_valid
  · rw [Node.kind, ha]
    exact h.sorted
  · rw [Node.kind, ha]
    exact h.fits

theorem map_id_eq_map_child (h : ∀ c ∈ ns, Id.parent? c.id = some x) :
    ns.map Node.id = (ns.map Node.name).map (Id.child x) := by
  rw [List.map_map]
  apply List.map_congr_left
  intro c hc
  exact (Id.child_simpleName (h c hc)).symm

theorem WellFormed.childIds_eq_map (h : n.WellFormed) :
    n.childIds = n.childNames.map (Id.child n.id) :=
  map_id_eq_map_child h.direct

theorem WellFormed.nodup_childNames (h : n.WellFormed) : n.childNames.Nodup := by
  have hids := h.nodup
  rw [h.childIds_eq_map] at hids
  exact hids.of_map _

theorem childNames_eq_map (n : Node) : n.childNames = n.childIds.map Id.simpleName := by
  rw [childNames, childIds, List.map_map]
  rfl

/-- The names of the children say as much as their ids. -/
theorem WellFormed.childNames_eq_iff {m : Node} (h : n.WellFormed) (hm : m.WellFormed)
    (hid : n.id = m.id) : n.childNames = m.childNames ↔ n.childIds = m.childIds := by
  constructor
  · intro he
    rw [h.childIds_eq_map, hm.childIds_eq_map, he, hid]
  · intro he
    rw [childNames_eq_map, childNames_eq_map, he]

theorem updatedChildren_perm (h : n.WellFormed)
    (hc : ∀ c, child? = some c → n.kind.canContain c.kind = true) :
    (n.updatedChildren x child?).Perm (child?.toList ++ n.children.filter fun n => n.id ≠ x) := by
  rw [updatedChildren]
  split
  · next hk => exact setMember_perm (h.sorted (by rw [hk]; rfl))
  · next hk => exact setMember_perm (h.sorted (by rw [hk]; rfl))
  · exact setParameter_perm h.nodup
  · next hk =>
    have hnone : child? = none := by
      rw [Option.eq_none_iff_forall_not_mem]
      intro c hcc
      have hf := hc c hcc
      rw [hk] at hf
      cases hf
    simp [hnone, h.children_of_var hk]

theorem mem_updatedChildren_iff (h : n.WellFormed)
    (hc : ∀ c, child? = some c → n.kind.canContain c.kind = true) :
    c ∈ n.updatedChildren x child? ↔ child? = some c ∨ c ∈ n.children ∧ c.id ≠ x := by
  rw [(updatedChildren_perm h hc).mem_iff, List.mem_append, Option.mem_toList, List.mem_filter,
    decide_eq_true_eq]

/-- The other children keep their values and their order, also in a node that is not well-formed. -/
theorem filter_updatedChildren {keep : Node → Bool} (hc : ∀ c, child? = some c → keep c = false)
    (hx : ∀ c ∈ n.children, c.id = x → keep c = false) :
    (n.updatedChildren x child?).filter keep = n.children.filter keep := by
  rw [updatedChildren]
  split
  · exact filter_setMember hc hx
  · exact filter_setMember hc hx
  · exact filter_setParameter hc hx
  · rfl

/-- A child that is replaced by its new version keeps its place. -/
theorem updatedChildren_ids_of_mem (h : n.WellFormed) (hc : c.id = x) (hm : x ∈ n.childIds) :
    (n.updatedChildren x (some c)).map Node.id = n.childIds := by
  rw [updatedChildren]
  split
  · next hk => exact setMember_ids_of_mem (h.sorted (by rw [hk]; rfl)) hc hm
  · next hk => exact setMember_ids_of_mem (h.sorted (by rw [hk]; rfl)) hc hm
  · exact setParameter_ids_of_mem hc hm
  · rfl

theorem setChild_eq_ok (hc : ∀ c, child? = some c → n.kind.canContain c.kind = true) :
    n.setChild x child? = .ok { n with children := n.updatedChildren x child? } := by
  cases child? with
  | none => rfl
  | some c => simp [setChild, hc c rfl]

theorem setChild_eq_ok_iff :
    n.setChild x child? = .ok r ↔
      (∀ c, child? = some c → n.kind.canContain c.kind = true) ∧
        r = { n with children := n.updatedChildren x child? } := by
  constructor
  · intro h
    cases child? with
    | none => exact ⟨nofun, (Except.ok.inj h).symm⟩
    | some c =>
      rw [setChild] at h
      split at h
      · next hc => exact ⟨fun d hd => Option.some.inj hd ▸ hc, (Except.ok.inj h).symm⟩
      · cases h
  · intro h
    obtain ⟨hc, rfl⟩ := h
    exact setChild_eq_ok hc

theorem WellFormed.updateChild (h : n.WellFormed) (hx : Id.parent? x = some n.id)
    (hid : ∀ c, child? = some c → c.id = x)
    (hc : ∀ c, child? = some c → n.kind.canContain c.kind = true) :
    ({ n with children := n.updatedChildren x child? } : Node).WellFormed where
  id_valid := h.id_valid
  direct := by
    intro c hm
    rcases (mem_updatedChildren_iff h hc).1 hm with hsome | ⟨hm, -⟩
    · exact (hid c hsome) ▸ hx
    · exact h.direct c hm
  nodup := by
    have hp := ((updatedChildren_perm h hc (x := x)).map Node.id).nodup_iff
    refine hp.2 ?_
    rw [List.map_append]
    refine List.nodup_append.2 ⟨by cases child? <;> simp, ?_, ?_⟩
    · exact h.nodup.sublist ((List.filter_sublist).map Node.id)
    · intro a ha b hb hab
      obtain ⟨c, hcm, rfl⟩ := List.mem_map.1 ha
      obtain ⟨d, hd, rfl⟩ := List.mem_map.1 hb
      have hne : d.id ≠ x := by simpa using (List.mem_filter.1 hd).2
      exact hne (hab ▸ hid c (Option.mem_toList.1 hcm))
  sorted := by
    intro hk
    have hs := h.sorted hk
    change ((n.updatedChildren x child?).map Node.id).Pairwise (· < ·)
    rw [updatedChildren]
    change n.kind.isSorted = true at hk
    split
    · exact setMember_ids_sorted hs hid
    · exact setMember_ids_sorted hs hid
    · next hf => rw [hf] at hk; cases hk
    · exact hs
  fits := by
    intro c hm
    rcases (mem_updatedChildren_iff h hc).1 hm with hsome | ⟨hm, -⟩
    · exact hc c hsome
    · exact h.fits c hm

end SourceHistory.Node
