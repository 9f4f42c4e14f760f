import Mathlib.Data.List.Nodup
import SourceHistory.Proofs.Node.Constructed

namespace SourceHistory

namespace Node

variable {n m : Node} {id : String} {attributes : Attributes} {children children' : List Node}

theorem pairwise_sortById (children : List Node) :
    (sortById children).Pairwise fun a b => a.id ≤ b.id := by
  have hsorted : (sortById children).Pairwise fun a b => decide (a.id ≤ b.id) = true := by
    refine List.pairwise_mergeSort (fun a b c hab hbc => ?_) (fun a b => ?_) children
    · exact decide_eq_true (String.le_trans (of_decide_eq_true hab) (of_decide_eq_true hbc))
    · rw [Bool.or_eq_true, decide_eq_true_eq, decide_eq_true_eq]
      exact String.le_total a.id b.id
  exact hsorted.imp of_decide_eq_true

theorem sortById_perm (children : List Node) : (sortById children).Perm children :=
  List.mergeSort_perm children _

theorem perm_sortById (h : children.Perm children') :
    (sortById children).Perm (sortById children') :=
  (sortById_perm children).trans (h.trans (sortById_perm children').symm)

theorem map_id_sortById_of_perm (h : children.Perm children') :
    (sortById children).map Node.id = (sortById children').map Node.id := by
  have hsorted (nodes : List Node) : ((sortById nodes).map Node.id).Pairwise (· ≤ ·) :=
    List.pairwise_map.2 (pairwise_sortById nodes)
  exact ((perm_sortById h).map Node.id).eq_of_pairwise (fun _ _ _ _ => String.le_antisymm)
    (hsorted children) (hsorted children')

theorem sortById_eq_of_perm (hnd : (children.map Node.id).Nodup) (h : children.Perm children') :
    sortById children = sortById children' := by
  refine (perm_sortById h).eq_of_pairwise (fun a b ha hb hab hba => ?_)
    (pairwise_sortById children) (pairwise_sortById children')
  have ha' : a ∈ children := (sortById_perm children).mem_iff.1 ha
  have hb' : b ∈ children := h.mem_iff.2 ((sortById_perm children').mem_iff.1 hb)
  exact List.inj_on_of_nodup_map hnd ha' hb' (String.le_antisymm hab hba)

/-- Without distinct ids the sort may tell two orders apart, but then the children are refused for
their ids, which it does not tell apart. -/
theorem make_eq_of_perm (hs : attributes.kind.isSorted = true) (h : children.Perm children') :
    make id attributes children = make id attributes children' := by
  by_cases hnd : (children.map Node.id).Nodup
  · simp only [make, hs, if_true, sortById_eq_of_perm hnd h]
  · have hids := map_id_sortById_of_perm h
    cases hc : checkChildren id [] ((sortById children).map Node.id) with
    | ok _ =>
      have hnd' := (checkChildren_eq_ok_iff.1 hc).2.1
      exact absurd (((sortById_perm children).map Node.id).nodup_iff.1 hnd') hnd
    | error e =>
      have hc' := hc
      rw [hids] at hc'
      simp only [make, checkShallow, childIds, kind, hs, if_true, hc, hc']
      cases checkId attributes.kind id <;> rfl

theorem ascending_sortById (hnd : ((sortById children).map Node.id).Nodup) :
    ((sortById children).map Node.id).Pairwise (· < ·) :=
  (List.pairwise_map.2 (pairwise_sortById children)).imp₂
    (fun _ _ hle hne => lt_of_le_of_ne hle hne) hnd

/-- Sorted children with distinct ids ascend, so that the check of their order has nothing to
refuse. -/
theorem checkOrder_of_nodup (hnd : ((sortById children).map Node.id).Nodup) :
    checkOrder ⟨id, attributes, sortById children⟩ = .ok () := by
  rw [checkOrder, childIds, isAscending_iff.2 (ascending_sortById hnd), Bool.not_true,
    Bool.and_false]
  rfl

theorem eq_invalidId_of_checkId {kind : Kind} {e : Error} (h : checkId kind id = .error e) :
    e = .invalidId kind id := by
  rw [checkId] at h
  split_ifs at h
  exact (Except.error.inj h).symm

theorem exists_of_checkChildren_eq_error {parent : String} {seen ids : List String} {e : Error}
    (h : checkChildren parent seen ids = .error e) :
    ∃ child, e = .invalidArgument (.notDirectChild child parent) ∨
      e = .duplicateId parent child := by
  induction ids generalizing seen with
  | nil => cases h
  | cons child ids ih =>
    rw [checkChildren] at h
    split_ifs at h
    · exact ⟨child, Or.inl (Except.error.inj h).symm⟩
    · exact ⟨child, Or.inr (Except.error.inj h).symm⟩
    · exact ih h

theorem exists_of_checkKinds_eq_error {e : Error} (h : checkKinds n children = .error e) :
    ∃ child ∈ children, e = .invalidParent child.id n.id n.kind child.kind := by
  induction children with
  | nil => cases h
  | cons child children ih =>
    rw [checkKinds] at h
    split_ifs at h
    · obtain ⟨c, hc, he⟩ := ih h
      exact ⟨c, List.mem_cons_of_mem child hc, he⟩
    · exact ⟨child, List.mem_cons_self, (Except.error.inj h).symm⟩

/-- The constructors never refuse the order of children: they sort it, or take it as it is. -/
theorem make_ne_unsortedChildren (id : String) (attributes : Attributes) (children : List Node)
    (noun parent : String) :
    make id attributes children ≠ .error (.invalidArgument (.unsortedChildren noun parent)) := by
  intro h
  rcases bind_eq_error_iff.1 h with h | ⟨_, -, h⟩
  · rcases bind_eq_error_iff.1 h with hid | ⟨_, -, h⟩
    · cases eq_invalidId_of_checkId hid
    rcases bind_eq_error_iff.1 h with hchildren | ⟨_, hchildren, h⟩
    · obtain ⟨child, he | he⟩ := exists_of_checkChildren_eq_error hchildren <;> cases he
    rcases bind_eq_error_iff.1 h with horder | ⟨_, -, hkinds⟩
    · have hnd := (checkChildren_eq_ok_iff.1 hchildren).2.1
      by_cases hs : attributes.kind.isSorted = true
      · rw [if_pos hs] at hnd horder
        cases horder.symm.trans (checkOrder_of_nodup hnd)
      · rw [checkOrder] at horder
        simp [kind, hs] at horder
    · obtain ⟨child, -, he⟩ := exists_of_checkKinds_eq_error hkinds
      cases he
  · cases h

mutual

/-- What the constructors make of the parts of a node, children first. -/
def build : Node → Except Error Node
  | ⟨id, attributes, children⟩ => do
    let children ← buildList children
    make id attributes children

def buildList : List Node → Except Error (List Node)
  | [] => .ok []
  | n :: ns => do
    let node ← build n
    let nodes ← buildList ns
    return node :: nodes

end

theorem buildList_eq_mapM (ns : List Node) : buildList ns = ns.mapM build := by
  induction ns with
  | nil => rfl
  | cons n ns ih => rw [buildList, ih, List.mapM_cons]

theorem build_eq_ok_iff :
    build ⟨id, attributes, children⟩ = .ok m ↔
      ∃ built, children.mapM build = .ok built ∧ make id attributes built = .ok m := by
  rw [build, buildList_eq_mapM, bind_eq_ok_iff]

/-- A valid node is what its own parts make. -/
theorem build_of_validate (h : n.validate = .ok ()) : n.build = .ok n := by
  induction n using children_induction with
  | node n ih =>
    obtain ⟨hwf, hv⟩ := validate_eq_ok_iff_children.1 h
    obtain ⟨id, attributes, children⟩ := n
    refine build_eq_ok_iff.2 ⟨children, mapM_eq_ok_iff.2 ?_, hwf.make_eq⟩
    exact List.forall₂_same.2 fun c hc => ih c hc (hv c hc)

/-- The same parts up to the order of the children of units and types, at any place of the tree. -/
inductive Rearranged : Node → Node → Prop where
  | perm {id : String} {attributes : Attributes} {children children' : List Node} :
    attributes.kind.isSorted = true → children.Perm children' →
      Rearranged ⟨id, attributes, children⟩ ⟨id, attributes, children'⟩
  | inside {id : String} {attributes : Attributes} {before after : List Node} {c c' : Node} :
    Rearranged c c' →
      Rearranged ⟨id, attributes, before ++ c :: after⟩ ⟨id, attributes, before ++ c' :: after⟩
  | trans {n n' n'' : Node} : Rearranged n n' → Rearranged n' n'' → Rearranged n n''

theorem Rearranged.build_eq_ok {n' : Node} (h : n.Rearranged n') (hb : n.build = .ok m) :
    n'.build = .ok m := by
  induction h generalizing m with
  | perm hs hp =>
    obtain ⟨built, hbuilt, hmake⟩ := build_eq_ok_iff.1 hb
    obtain ⟨built', hbuilt', hperm⟩ := exists_mapM_of_perm hp hbuilt
    exact build_eq_ok_iff.2 ⟨built', hbuilt', (make_eq_of_perm hs hperm) ▸ hmake⟩
  | inside _ ih =>
    obtain ⟨built, hbuilt, hmake⟩ := build_eq_ok_iff.1 hb
    exact build_eq_ok_iff.2 ⟨built, mapM_eq_ok_of_replace (fun _ hc => ih hc) hbuilt, hmake⟩
  | trans _ _ ih ih' => exact ih' (ih hb)

end Node

end SourceHistory
