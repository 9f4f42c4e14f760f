import Mathlib.Data.List.Pairwise
import SourceHistory.Node.Child
import SourceHistory.Proofs.Attempt
import SourceHistory.Proofs.Id.Ancestry

namespace SourceHistory

theorem Node.ext {n m : Node} (hid : n.id = m.id) (hattr : n.attributes = m.attributes)
    (hchildren : n.children = m.children) : n = m := by
  cases n
  cases m
  simp_all

/-- Structural induction on nodes through their lists of children. -/
@[elab_as_elim]
theorem Node.children_induction {motive : Node → Prop}
    (node : ∀ n : Node, (∀ c ∈ n.children, motive c) → motive n) (n : Node) : motive n :=
  node n fun c _ => Node.children_induction node c
termination_by sizeOf n
decreasing_by
  next hc =>
    have hlt := List.sizeOf_lt_of_mem hc
    cases n
    simp only [Node.mk.sizeOf_spec] at hlt ⊢
    omega

theorem checkId_eq_ok_iff {kind : Kind} {id : String} :
    checkId kind id = .ok () ↔ kind.isValidId id = true := by
  simp [checkId]

theorem checkChildren_eq_ok_iff {parent : String} {seen ids : List String} :
    checkChildren parent seen ids = .ok () ↔
      (∀ c ∈ ids, Id.parent? c = some parent) ∧ ids.Nodup ∧ ∀ c ∈ ids, c ∉ seen := by
  induction ids generalizing seen with
  | nil => simp [checkChildren]
  | cons c cs ih =>
    rw [checkChildren]
    by_cases hp : Id.parent? c = some parent
    · by_cases hs : c ∈ seen
      · simp [hp, hs]
      · simp only [hp, ne_eq, not_true_eq_false, if_false, hs, ih, List.mem_cons, not_or,
          List.nodup_cons, forall_eq_or_imp]
        constructor
        · intro hand
          obtain ⟨hd, hn, hm⟩ := hand
          exact ⟨⟨trivial, hd⟩, ⟨fun hc => (hm c hc).1 rfl, hn⟩, not_false, fun a ha => (hm a ha).2⟩
        · intro hand
          obtain ⟨⟨-, hd⟩, ⟨hc, hn⟩, -, hm⟩ := hand
          exact ⟨hd, hn, fun a ha => ⟨fun he => hc (he ▸ ha), hm a ha⟩⟩
    · simp [hp]

theorem isAscending_iff {ids : List String} : isAscending ids = true ↔ ids.Pairwise (· < ·) := by
  induction ids with
  | nil => simp [isAscending]
  | cons a ids ih =>
    cases ids with
    | nil => simp [isAscending]
    | cons b rest =>
      rw [isAscending, List.pairwise_cons_cons_iff_of_trans, Bool.and_eq_true, decide_eq_true_eq, ih]

namespace Node

theorem checkKinds_eq_ok_iff {n : Node} {children : List Node} :
    checkKinds n children = .ok () ↔ ∀ c ∈ children, n.kind.canContain c.kind = true := by
  induction children with
  | nil => simp [checkKinds]
  | cons c cs ih => by_cases hc : n.kind.canContain c.kind = true <;> simp [checkKinds, hc, ih]

/-- What the check of one level asks for. -/
structure WellFormed (n : Node) : Prop where
  id_valid : n.kind.isValidId n.id = true
  direct : ∀ c ∈ n.children, Id.parent? c.id = some n.id
  nodup : n.childIds.Nodup
  sorted : n.kind.isSorted = true → n.childIds.Pairwise (· < ·)
  fits : ∀ c ∈ n.children, n.kind.canContain c.kind = true

theorem checkShallow_eq_ok_iff {n : Node} : n.checkShallow = .ok () ↔ n.WellFormed := by
  have horder : n.checkOrder = .ok () ↔
      (n.kind.isSorted = true → n.childIds.Pairwise (· < ·)) := by
    rw [checkOrder, ← isAscending_iff]
    cases n.kind.isSorted <;> cases isAscending n.childIds <;> simp
  simp only [checkShallow, check_bind_eq_ok_iff, checkId_eq_ok_iff, checkChildren_eq_ok_iff, horder,
    checkKinds_eq_ok_iff]
  constructor
  · intro hand
    obtain ⟨hid, ⟨hd, hn, -⟩, hs, hk⟩ := hand
    exact ⟨hid, fun c hc => hd _ (List.mem_map_of_mem hc), hn, hs, hk⟩
  · intro h
    refine ⟨h.id_valid, ⟨fun c hc => ?_, h.nodup, fun _ _ => List.not_mem_nil⟩, h.sorted, h.fits⟩
    obtain ⟨d, hd, rfl⟩ := List.mem_map.1 hc
    exact h.direct d hd

theorem validateList_eq_ok_iff {ns : List Node} :
    validateList ns = .ok () ↔ ∀ n ∈ ns, n.validate = .ok () := by
  induction ns with
  | nil => simp [validateList]
  | cons n ns ih =>
    rw [validateList, List.forall_mem_cons, ← ih, check_bind_eq_ok_iff]

theorem validate_eq_ok_iff_children {n : Node} :
    n.validate = .ok () ↔ n.WellFormed ∧ ∀ c ∈ n.children, c.validate = .ok () := by
  obtain ⟨id, attributes, children⟩ := n
  rw [validate, ← checkShallow_eq_ok_iff, ← validateList_eq_ok_iff, check_bind_eq_ok_iff]

theorem preorder_eq (n : Node) : n.preorder = n :: preorderList n.children := by
  cases n
  rw [preorder]

theorem mem_preorderList_iff {m : Node} {ns : List Node} :
    m ∈ preorderList ns ↔ ∃ n ∈ ns, m ∈ n.preorder := by
  induction ns with
  | nil => simp [preorderList]
  | cons n ns ih => simp [preorderList, ih]

theorem mem_preorder_iff {n m : Node} :
    m ∈ n.preorder ↔ m = n ∨ ∃ c ∈ n.children, m ∈ c.preorder := by
  rw [preorder_eq, List.mem_cons, mem_preorderList_iff]

theorem self_mem_preorder (n : Node) : n ∈ n.preorder := mem_preorder_iff.2 (Or.inl rfl)

theorem child_mem_preorder {n m c : Node} (hm : m ∈ n.preorder) (hc : c ∈ m.children) :
    c ∈ n.preorder := by
  induction n using children_induction with
  | node n ih =>
    rcases mem_preorder_iff.1 hm with rfl | ⟨d, hd, hm⟩
    · exact mem_preorder_iff.2 (Or.inr ⟨c, hc, self_mem_preorder c⟩)
    · exact mem_preorder_iff.2 (Or.inr ⟨d, hd, ih d hd hm⟩)

/-- All of a subtree but its root stands below another node of it. -/
theorem exists_parent_of_mem_preorder {n m : Node} (hm : m ∈ n.preorder) (hne : m ≠ n) :
    ∃ p ∈ n.preorder, m ∈ p.children := by
  induction n using children_induction with
  | node n ih =>
    rcases mem_preorder_iff.1 hm with rfl | ⟨d, hd, hm⟩
    · exact absurd rfl hne
    · by_cases he : m = d
      · exact ⟨n, self_mem_preorder n, he ▸ hd⟩
      · obtain ⟨p, hp, hc⟩ := ih d hd hm he
        exact ⟨p, mem_preorder_iff.2 (Or.inr ⟨d, hd, hp⟩), hc⟩

theorem validate_eq_ok_iff {n : Node} :
    n.validate = .ok () ↔ ∀ m ∈ n.preorder, m.WellFormed := by
  induction n using children_induction with
  | node n ih =>
    rw [validate_eq_ok_iff_children]
    constructor
    · rintro ⟨hn, hc⟩ m hm
      rcases mem_preorder_iff.1 hm with rfl | ⟨c, hcn, hm⟩
      · exact hn
      · exact (ih c hcn).1 (hc c hcn) m hm
    · intro h
      refine ⟨h n (self_mem_preorder n), fun c hc => (ih c hc).2 fun m hm => ?_⟩
      exact h m (mem_preorder_iff.2 (Or.inr ⟨c, hc, hm⟩))

theorem within_of_mem_preorder {n m : Node} (h : n.validate = .ok ()) (hm : m ∈ n.preorder) :
    Id.Within m.id n.id := by
  induction n using children_induction with
  | node n ih =>
    obtain ⟨hn, hv⟩ := validate_eq_ok_iff_children.1 h
    rcases mem_preorder_iff.1 hm with rfl | ⟨c, hc, hm⟩
    · exact Id.Within.refl _
    · exact (ih c hc (hv c hc) hm).trans (Id.Within.of_parent? (hn.direct c hc))

/-- No id occurs twice in a valid node: subtrees of siblings are disjoint. -/
theorem nodup_preorder_ids {n : Node} (h : n.validate = .ok ()) :
    (n.preorder.map Node.id).Nodup := by
  induction n using children_induction with
  | node n ih =>
    obtain ⟨hn, hv⟩ := validate_eq_ok_iff_children.1 h
    have below : ∀ c ∈ n.children, ∀ m ∈ c.preorder, Id.Within m.id c.id :=
      fun c hc m hm => within_of_mem_preorder (hv c hc) hm
    have hlist : ∀ cs : List Node, (∀ c ∈ cs, c ∈ n.children) → (cs.map Node.id).Nodup →
        ((preorderList cs).map Node.id).Nodup := by
      intro cs
      induction cs with
      | nil => intro _ _; simp [preorderList]
      | cons c cs ihc =>
        intro hsub hnd
        obtain ⟨hc, hcs⟩ := List.nodup_cons.1 hnd
        have htail := ihc (fun d hd => hsub d (List.mem_cons_of_mem c hd)) hcs
        have hhead := ih c (hsub c List.mem_cons_self) (hv c (hsub c List.mem_cons_self))
        rw [preorderList, List.map_append]
        refine List.nodup_append.2 ⟨hhead, htail, ?_⟩
        intro a ha b hb hab
        obtain ⟨m, hm, rfl⟩ := List.mem_map.1 ha
        obtain ⟨m', hm', rfl⟩ := List.mem_map.1 hb
        obtain ⟨d, hd, hmd⟩ := mem_preorderList_iff.1 hm'
        have hcn := hsub c List.mem_cons_self
        have hdn := hsub d (List.mem_cons_of_mem c hd)
        have hcd : c.id = d.id :=
          (below c hcn m hm).eq_of_parent?_eq (hab ▸ below d hdn m' hmd)
            ((hn.direct c hcn).trans (hn.direct d hdn).symm)
        exact hc (hcd ▸ List.mem_map_of_mem hd)
    rw [preorder_eq, List.map_cons]
    refine List.nodup_cons.2 ⟨?_, hlist n.children (fun _ hc => hc) hn.nodup⟩
    intro hmem
    obtain ⟨m, hm, he⟩ := List.mem_map.1 hmem
    obtain ⟨c, hc, hmc⟩ := mem_preorderList_iff.1 hm
    exact Id.not_within_of_parent? (hn.direct c hc) (he ▸ below c hc m hmc)

end Node

end SourceHistory
