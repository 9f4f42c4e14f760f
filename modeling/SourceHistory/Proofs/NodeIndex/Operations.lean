import SourceHistory.Proofs.Edit.Apply
import SourceHistory.Proofs.Node.Constructed

namespace SourceHistory

variable {index : NodeIndex} {k x : String} {n m c r : Node} {e : Edit} {child? : Option Node}

namespace Node

theorem validate_of_mem_preorder (h : n.validate = .ok ()) (hm : m ∈ n.preorder) :
    m.validate = .ok () := by
  induction n using children_induction with
  | node n ih =>
    rcases mem_preorder_iff.1 hm with rfl | ⟨c, hc, hm⟩
    · exact h
    · exact ih c hc ((validate_eq_ok_iff_children.1 h).2 c hc) hm

theorem validate_of_setChild (h : n.validate = .ok ()) (hx : Id.parent? x = some n.id)
    (hchild : ∀ c, child? = some c → c.id = x ∧ c.validate = .ok ())
    (hr : n.setChild x child? = .ok r) : r.id = n.id ∧ r.validate = .ok () := by
  obtain ⟨hfit, rfl⟩ := setChild_eq_ok_iff.1 hr
  obtain ⟨hwf, hchildren⟩ := validate_eq_ok_iff_children.1 h
  refine ⟨rfl, validate_eq_ok_iff_children.2 ⟨?_, fun c hc => ?_⟩⟩
  · exact hwf.updateChild hx (fun c hc => (hchild c hc).1) hfit
  · rcases (mem_updatedChildren_iff hwf hfit).1 hc with hc | ⟨hc, -⟩
    · exact (hchild c hc).2
    · exact hchildren c hc

end Node

namespace NodeIndex

/-- Every entry is stored under its own id and passes the check of all levels. -/
structure Valid (index : NodeIndex) : Prop where
  id_eq : ∀ {k : String} {n : Node}, index[k]? = some n → n.id = k
  validate : ∀ {k : String} {n : Node}, index[k]? = some n → n.validate = .ok ()

theorem getElem?_of_getElem?_eraseAll {pending : List String}
    (h : (eraseAll index pending)[k]? = some n) : index[k]? = some n := by
  induction index, pending using eraseAll.induct with
  | case1 index => rwa [eraseAll] at h
  | case2 index x pending hx ih =>
    rw [eraseAll_cons_of_none hx] at h
    exact ih h
  | case3 index x pending m hx ih =>
    rw [eraseAll_cons_of_some hx] at h
    have hk := ih h
    rw [NameMap.getElem?_erase] at hk
    split at hk
    · cases hk
    · exact hk

namespace Valid

theorem empty : (∅ : NodeIndex).Valid := ⟨fun hk => by simp at hk, fun hk => by simp at hk⟩

theorem sound (h : index.Valid) : index.Sound :=
  ⟨h.id_eq, fun hk => (Node.validate_eq_ok_iff_children.1 (h.validate hk)).1⟩

theorem insert (h : index.Valid) (hid : n.id = x) (hn : n.validate = .ok ()) :
    Valid (index.insert x n) := by
  have hentry : ∀ {k : String} {m : Node}, (index.insert x n)[k]? = some m →
      m.id = k ∧ m.validate = .ok () := by
    intro k m hk
    rw [NameMap.getElem?_insert] at hk
    split at hk
    · next hxk =>
      obtain rfl := Option.some.inj hk
      exact ⟨hid.trans hxk, hn⟩
    · exact ⟨h.id_eq hk, h.validate hk⟩
  exact ⟨fun hk => (hentry hk).1, fun hk => (hentry hk).2⟩

theorem insertSubtree (h : index.Valid) (hn : n.validate = .ok ()) :
    Valid (insertSubtree index n) := by
  have hall : ∀ m ∈ n.preorder, m.validate = .ok () :=
    fun m hm => Node.validate_of_mem_preorder hn hm
  rw [NodeIndex.insertSubtree]
  generalize n.preorder = ns at hall
  induction ns generalizing index with
  | nil => exact h
  | cons m ns ih =>
    obtain ⟨hm, hns⟩ := List.forall_mem_cons.1 hall
    exact ih (h.insert rfl hm) hns

theorem eraseSubtree (h : index.Valid) (x : String) : Valid (eraseSubtree index x) :=
  ⟨fun hk => h.id_eq (getElem?_of_getElem?_eraseAll hk),
    fun hk => h.validate (getElem?_of_getElem?_eraseAll hk)⟩

theorem ofUnits {units : List SourceUnit} (h : ∀ u ∈ units, u.Constructed) :
    Valid (ofUnits units) := by
  have hfold : ∀ start : NodeIndex, start.Valid →
      Valid (units.foldl (fun index u => NodeIndex.insertSubtree index u.toNode) start) := by
    induction units with
    | nil => exact fun _ hs => hs
    | cons u units ih =>
      obtain ⟨hu, hunits⟩ := List.forall_mem_cons.1 h
      exact fun start hs => ih hunits _ (hs.insertSubtree hu.validate)
  exact hfold ∅ Valid.empty

/-- A rebuild that stops on its way leaves valid entries, too. -/
theorem rebuildAncestors (h : index.Valid) (x : String) :
    (rebuildAncestors index x).state.Valid := by
  induction x using Id.parent_induction generalizing index with
  | unit x hp =>
    rw [rebuildAncestors_of_parent?_none hp]
    exact h
  | entity x p hp ih =>
    rw [NodeIndex.rebuildAncestors, Id.ancestors_of_parent?_some hp, rebuildChain]
    split
    · exact h
    · next m hm =>
      split
      · exact h
      · next r hr =>
        have hid : m.id = p := h.id_eq hm
        obtain ⟨hrid, hrv⟩ := Node.validate_of_setChild (h.validate hm) (hid ▸ hp)
          (fun c hc => ⟨h.id_eq hc, h.validate hc⟩) hr
        exact ih (h.insert (hrid.trans hid) hrv)

theorem revise (h : index.Valid) (hn : index[k]? = some n) (he : e.isAttributeEdit = true)
    (hr : Edit.revise index n e = .ok r) : r.id = n.id ∧ r.validate = .ok () := by
  obtain ⟨hwf, hchildren⟩ := Node.validate_eq_ok_iff_children.1 (h.validate hn)
  rcases Edit.revise_cases he hr with ⟨a, ha, rfl⟩ | ⟨hk, a, edits, ps, ha, hps, rfl⟩
  · exact ⟨rfl, Node.validate_eq_ok_iff_children.2 ⟨hwf.withAttributes ha, hchildren⟩⟩
  · have hvalid := hwf.id_valid
    rw [hk] at hvalid
    obtain ⟨_, -, hnames, -⟩ := Edit.resolveParameters_eq_ok_iff.1 hps
    obtain ⟨-, hparam⟩ := Edit.parameters_of_resolveNames h.sound hvalid hnames
    have hwf' := Edit.wellFormed_of_resolveNames h.sound hwf hk hnames ha
    exact ⟨rfl, Node.validate_eq_ok_iff_children.2
      ⟨hwf', fun c hc => h.validate (hparam c hc).1⟩⟩

theorem stage (h : index.Valid) (hc : e.check = .ok ()) {staged : NodeIndex}
    (hs : Edit.stage index e = .ok staged) : staged.Valid := by
  rcases Edit.stage_cases hs with
    ⟨n, rfl, -, -, rfl⟩ | ⟨x, n, rfl, -, -, rfl⟩ | ⟨n, r, he, hn, hr, -, rfl⟩
  · exact h.insertSubtree hc
  · exact h.eraseSubtree x
  · exact h.insert rfl (h.revise hn he hr).2

theorem applyTo (h : index.Valid) (hc : e.check = .ok ()) : (e.applyTo index).state.Valid := by
  rw [Edit.applyTo]
  split
  · exact h
  · next staged hs => exact (h.stage hc hs).rebuildAncestors e.id

end Valid

/-- What operations on indexes lead to, one after the other and with arguments that the constructors
built; a failed edit counts with what it leaves. -/
inductive Reached : NodeIndex → Prop where
  | empty : Reached ∅
  | ofUnits {units : List SourceUnit} : (∀ u ∈ units, u.Constructed) → Reached (ofUnits units)
  | insertSubtree {index : NodeIndex} {n : Node} :
    Reached index → n.Constructed → Reached (insertSubtree index n)
  | takeSubtree {index : NodeIndex} (id : String) :
    Reached index → Reached (takeSubtree index id).2
  | replace {index : NodeIndex} {n : Node} :
    Reached index → n.Constructed → Reached (replace index n)
  | applyTo {index : NodeIndex} {e : Edit} :
    Reached index → e.check = .ok () → Reached (e.applyTo index).state

theorem Reached.valid (h : index.Reached) : index.Valid := by
  induction h with
  | empty => exact Valid.empty
  | ofUnits hu => exact Valid.ofUnits hu
  | insertSubtree _ hn ih => exact ih.insertSubtree (Node.constructed_iff.1 hn)
  | takeSubtree id _ ih => exact ih.eraseSubtree id
  | replace _ hn ih => exact ih.insert rfl (Node.constructed_iff.1 hn)
  | applyTo _ hc ih => exact ih.applyTo hc

/-- Whatever was done to an index, each entry is stored under its id and valid: at every level ids
fit their kinds, children stand directly below their parent with different ids, and those of units
and types ascend. -/
theorem reached_entries_valid (h : index.Reached) (hk : index[k]? = some n) :
    n.id = k ∧ n.validate = .ok () ∧
    ∀ m ∈ n.preorder, m.kind.isValidId m.id = true ∧
      (∀ c ∈ m.children, Id.parent? c.id = some m.id) ∧ m.childIds.Nodup ∧
      (m.kind = .unit ∨ m.kind = .type → m.childIds.Pairwise (· < ·)) := by
  have hv := h.valid.validate hk
  refine ⟨h.valid.id_eq hk, hv, fun m hm => ?_⟩
  have hwf := Node.validate_eq_ok_iff.1 hv m hm
  refine ⟨hwf.id_valid, hwf.direct, hwf.nodup, fun hkind => hwf.sorted ?_⟩
  rcases hkind with hkind | hkind <;> rw [hkind] <;> rfl

/-- A type turns into a variable under its member, and an edit of the member fails on its way up. -/
theorem reached_entries_valid_of_failure :
    let unit : Node := ⟨"a", .unit, [⟨"a:T", .type ∅ ∅, [⟨"a:T:x", .var ∅ [], []⟩]⟩]⟩
    let index := replace (insertSubtree ∅ unit) ⟨"a:T", .var ∅ [], []⟩
    let edit := Edit.editVar "a:T:x" [] [.add 0 "1"]
    let member : Node := ⟨"a:T:x", .var ∅ ["1"], []⟩
    (edit.applyTo index).error? = some (.invalidParent "a:T:x" "a:T" .var .var) ∧
      (edit.applyTo index).state["a:T:x"]? = some member ∧ member.validate = .ok () := by
  intro unit index edit member
  have hunit : unit.Constructed := Node.constructed_iff.2 (by decide +kernel)
  have hvar : Node.Constructed ⟨"a:T", .var ∅ [], []⟩ := Node.constructed_iff.2 (by decide +kernel)
  have hreached : (edit.applyTo index).state.Reached :=
    .applyTo (.replace (.insertSubtree .empty hunit) hvar) (by decide +kernel)
  have hmember : (edit.applyTo index).state["a:T:x"]? = some member := by decide +kernel
  exact ⟨by decide +kernel, hmember, (reached_entries_valid hreached hmember).2.1⟩

end NodeIndex

end SourceHistory
