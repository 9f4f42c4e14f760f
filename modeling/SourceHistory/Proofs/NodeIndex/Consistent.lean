import Mathlib.Data.List.Sort
import SourceHistory.Proofs.Node.Child
import SourceHistory.Proofs.NodeIndex.Subtree

namespace SourceHistory.NodeIndex

open SourceHistory.Id (Within)

/-- Every entry is well-formed and stored under its own id. -/
structure Sound (index : NodeIndex) : Prop where
  id_eq : ∀ {k : String} {n : Node}, index[k]? = some n → n.id = k
  wellFormed : ∀ {k : String} {n : Node}, index[k]? = some n → n.WellFormed

/-- Parents hold exactly the current versions of their children. -/
structure Consistent (index : NodeIndex) : Prop extends Sound index where
  child : ∀ {k : String} {n c : Node}, index[k]? = some n → c ∈ n.children →
    index[c.id]? = some c
  parent : ∀ {k p : String} {n : Node}, index[k]? = some n → Id.parent? k = some p →
    ∃ m, index[p]? = some m ∧ n ∈ m.children

variable {index other : NodeIndex} {k x p : String} {n m c r : Node}

theorem Sound.direct (h : index.Sound) : index.Direct := by
  intro k n hk c hc
  obtain ⟨d, hd, rfl⟩ := List.mem_map.1 hc
  rw [(h.wellFormed hk).direct d hd, h.id_eq hk]

theorem Sound.kind_of_parent?_none (h : index.Sound) (hk : index[k]? = some n)
    (hp : Id.parent? k = none) : n.kind = .unit := by
  by_contra hne
  have hv := (h.wellFormed hk).id_valid
  rw [h.id_eq hk] at hv
  obtain ⟨p, hp'⟩ := Kind.exists_parent?_of_isValidId hv hne
  rw [hp] at hp'
  cases hp'

theorem Sound.parent?_of_kind_unit (h : index.Sound) (hk : index[k]? = some n)
    (hn : n.kind = .unit) : Id.parent? k = none := by
  have hv := (h.wellFormed hk).id_valid
  rw [h.id_eq hk, hn] at hv
  exact Kind.parent?_of_isValidId_unit hv

theorem Sound.empty : (∅ : NodeIndex).Sound where
  id_eq hk := by simp at hk
  wellFormed hk := by simp at hk

theorem Consistent.empty : (∅ : NodeIndex).Consistent where
  toSound := Sound.empty
  child hk _ := by simp at hk
  parent hk _ := by simp at hk

namespace Consistent

theorem listed (h : index.Consistent) (pending : List String) : index.Listed pending := by
  intro k n p hk hp
  obtain ⟨m, hm, hmem⟩ := h.parent hk hp
  exact Or.inr ⟨m, hm, h.id_eq hk ▸ List.mem_map_of_mem hmem⟩

theorem mem_childIds_iff (h : index.Consistent) (hp : index[p]? = some m) :
    k ∈ m.childIds ↔ Id.parent? k = some p ∧ ∃ n, index[k]? = some n := by
  constructor
  · intro hm
    obtain ⟨c, hc, rfl⟩ := List.mem_map.1 hm
    exact ⟨h.id_eq hp ▸ (h.wellFormed hp).direct c hc, c, h.child hp hc⟩
  · intro hex
    obtain ⟨hk, n, hn⟩ := hex
    obtain ⟨m', hm', hmem⟩ := h.parent hn hk
    rw [hp, Option.some.injEq] at hm'
    exact hm' ▸ h.id_eq hn ▸ List.mem_map_of_mem hmem

theorem getElem?_of_mem_preorder (h : index.Consistent) (hk : index[k]? = some n)
    (hm : m ∈ n.preorder) : index[m.id]? = some m := by
  induction n using Node.children_induction generalizing k with
  | node n ih =>
    rcases Node.mem_preorder_iff.1 hm with rfl | ⟨c, hc, hm⟩
    · rw [h.id_eq hk, hk]
    · exact ih c hc (h.child hk hc) hm

theorem validate (h : index.Consistent) (hk : index[k]? = some n) : n.validate = .ok () := by
  rw [Node.validate_eq_ok_iff]
  intro m hm
  exact h.wellFormed (h.getElem?_of_mem_preorder hk hm)

/-- Around an entry there are entries up to its unit, and each of them holds it. -/
theorem exists_mem_preorder (h : index.Consistent) (hk : index[k]? = some n) (hw : Within k x) :
    ∃ r, index[x]? = some r ∧ n ∈ r.preorder := by
  induction k using Id.parent_induction generalizing n with
  | unit k hp =>
    rw [(Id.within_iff_of_parent?_none hp).1 hw]
    exact ⟨n, hk, Node.self_mem_preorder n⟩
  | entity k p hp ih =>
    rcases (Id.within_iff_of_parent?_some hp).1 hw with rfl | hw
    · exact ⟨n, hk, Node.self_mem_preorder n⟩
    · obtain ⟨m, hm, hmem⟩ := h.parent hk hp
      obtain ⟨r, hr, hmr⟩ := ih hm hw
      exact ⟨r, hr, Node.child_mem_preorder hmr hmem⟩

theorem getElem?_eq_none_of_within (h : index.Consistent) (hx : index[x]? = none)
    (hw : Within k x) : index[k]? = none := by
  cases hk : index[k]? with
  | none => rfl
  | some n =>
    obtain ⟨r, hr, -⟩ := h.exists_mem_preorder hk hw
    rw [hx] at hr
    cases hr

theorem getElem?_eq_some_iff (h : index.Consistent) :
    index[k]? = some n ↔
      ∃ r, index[Id.sourcePath k]? = some r ∧ n ∈ r.preorder ∧ n.id = k := by
  constructor
  · intro hk
    obtain ⟨r, hr, hm⟩ := h.exists_mem_preorder hk (Id.within_sourcePath k)
    exact ⟨r, hr, hm, h.id_eq hk⟩
  · intro hex
    obtain ⟨r, hr, hm, rfl⟩ := hex
    exact h.getElem?_of_mem_preorder hr hm

/-- Consistent indexes with the same units are equal. -/
theorem ext_units (h : index.Consistent) (ho : other.Consistent)
    (hu : ∀ path : String, Id.parent? path = none → index[path]? = other[path]?) :
    index = other := by
  apply Std.ExtTreeMap.ext_getElem?
  intro k
  apply Option.ext
  intro n
  rw [h.getElem?_eq_some_iff, ho.getElem?_eq_some_iff, hu _ (Id.parent?_sourcePath k)]

theorem getElem?_eraseSubtree (h : index.Consistent) (x k : String) :
    (eraseSubtree index x)[k]? = if Within k x then none else index[k]? :=
  NodeIndex.getElem?_eraseSubtree h.direct (h.listed [x]) k

end Consistent

/-- What an index says about `k` itself: its attributes and the order of its children. -/
def label (index : NodeIndex) (k : String) : Option (Attributes × List String) :=
  index[k]?.map fun n => (n.attributes, n.childIds)

theorem label_eq_some_iff {a : Attributes} {ids : List String} :
    index.label k = some (a, ids) ↔
      ∃ n, index[k]? = some n ∧ n.attributes = a ∧ n.childIds = ids := by
  simp [label]

theorem label_of_getElem? (hk : index[k]? = some n) :
    index.label k = some (n.attributes, n.childIds) := by
  rw [label, hk, Option.map_some]

def kindAt (index : NodeIndex) (k : String) : Option Kind := index[k]?.map Node.kind

theorem kindAt_of_getElem? (hk : index[k]? = some n) : index.kindAt k = some n.kind := by
  rw [kindAt, hk, Option.map_some]

theorem kindAt_congr (h : index[k]? = other[k]?) : index.kindAt k = other.kindAt k := by
  rw [kindAt, h, kindAt]

theorem kindAt_eq_some_iff {kind : Kind} :
    index.kindAt k = some kind ↔ ∃ n, index[k]? = some n ∧ n.kind = kind := by
  rw [kindAt, Option.map_eq_some_iff]

theorem kindAt_eq_none_iff : index.kindAt k = none ↔ index[k]? = none := by
  rw [kindAt, Option.map_eq_none_iff]

theorem kindAt_eq_map_label : index.kindAt k = (index.label k).map fun l => l.1.kind := by
  rw [kindAt, label, Option.map_map]
  rfl

theorem kindAt_eq_of_label_eq (h : index.label k = other.label k) : index.kindAt k = other.kindAt k := by
  rw [kindAt_eq_map_label, kindAt_eq_map_label, h]

theorem contains_eq_of_kindAt_eq (h : index.kindAt k = other.kindAt k) :
    index.contains k = other.contains k := by
  have hsome (i : NodeIndex) : i.contains k = (i.kindAt k).isSome := by
    rw [kindAt, Option.isSome_map, Std.ExtTreeMap.contains_eq_isSome_getElem?]
  rw [hsome, hsome, h]

theorem eq_of_map_id_eq {as bs : List Node} (ha : ∀ a ∈ as, index[a.id]? = some a)
    (hb : ∀ b ∈ bs, index[b.id]? = some b) (h : as.map Node.id = bs.map Node.id) : as = bs := by
  induction as generalizing bs with
  | nil => exact (List.map_eq_nil_iff.1 h.symm).symm
  | cons a as ih =>
    cases bs with
    | nil => cases h
    | cons b bs =>
      obtain ⟨hab, hrest⟩ := List.cons.inj h
      obtain ⟨ha, has⟩ := List.forall_mem_cons.1 ha
      obtain ⟨hb, hbs⟩ := List.forall_mem_cons.1 hb
      rw [hab, hb, Option.some.injEq] at ha
      rw [ha, ih has hbs hrest]

namespace Consistent

/-- What lies within `k` is known by its labels: children are looked up by their ids. -/
theorem getElem?_eq_of_label_eq (h : index.Consistent) (ho : other.Consistent)
    (hl : ∀ j, Within j k → index.label j = other.label j) : index[k]? = other[k]? := by
  cases hk : index[k]? with
  | none =>
    have hnone := hl k (Within.refl k)
    rw [label, hk, Option.map_none, eq_comm, label, Option.map_eq_none_iff] at hnone
    exact hnone.symm
  | some n =>
    induction n using Node.children_induction generalizing k with
    | node n ih =>
      have hlabel := (hl k (Within.refl k)).symm.trans (label_of_getElem? hk)
      obtain ⟨m, hm, hattr, hids⟩ := label_eq_some_iff.1 hlabel
      have hcurrent : ∀ c ∈ n.children, other[c.id]? = some c := by
        intro c hc
        have hp : Id.parent? c.id = some k := h.id_eq hk ▸ (h.wellFormed hk).direct c hc
        exact (ih c hc (fun j hj => hl j (hj.trans (Within.of_parent? hp))) (h.child hk hc)).symm
      have hid : n.id = m.id := (h.id_eq hk).trans (ho.id_eq hm).symm
      have hchildren : n.children = m.children :=
        eq_of_map_id_eq hcurrent (fun c hc => ho.child hm hc) hids.symm
      rw [hm, Node.ext hid hattr.symm hchildren]

/-- Consistent indexes with the same labels are equal. -/
theorem ext_label (h : index.Consistent) (ho : other.Consistent)
    (hl : ∀ k, index.label k = other.label k) : index = other := by
  apply Std.ExtTreeMap.ext_getElem?
  intro k
  exact h.getElem?_eq_of_label_eq ho fun j _ => hl j

/-- Where both sides keep their children sorted, the ids alone decide the order. -/
theorem childIds_eq (h : index.Consistent) (ho : other.Consistent)
    (hkeys : ∀ k : String, (∃ n, index[k]? = some n) ↔ ∃ n, other[k]? = some n)
    (hn : index[k]? = some n) (hm : other[k]? = some m) (hkind : n.kind = m.kind)
    (hf : n.kind ≠ .function) : n.childIds = m.childIds := by
  have hmem : ∀ c, c ∈ n.childIds ↔ c ∈ m.childIds := by
    intro c
    rw [h.mem_childIds_iff hn, ho.mem_childIds_iff hm, hkeys]
  by_cases hs : n.kind.isSorted = true
  · exact List.Pairwise.eq_of_mem_iff ((h.wellFormed hn).sorted hs)
      ((ho.wellFormed hm).sorted (hkind ▸ hs)) hmem
  · have hv : n.kind = .var := by
      generalize n.kind = kind at hs hf
      cases kind <;> simp_all [Kind.isSorted]
    rw [Node.childIds, Node.childIds, (h.wellFormed hn).children_of_var hv,
      (ho.wellFormed hm).children_of_var (hkind ▸ hv)]

end Consistent

end SourceHistory.NodeIndex
