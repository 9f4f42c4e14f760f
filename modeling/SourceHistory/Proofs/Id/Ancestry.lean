import Mathlib.Data.String.Basic
import SourceHistory.Id
import SourceHistory.Proofs.Text.Cut

namespace SourceHistory.Id

open Text

variable {id parent name root k x : String}

@[simp]
theorem toList_child : (child parent name).toList = parent.toList ++ separator :: name.toList := by
  simp [child]

theorem parent?_eq_none_iff : parent? id = none ↔ separator ∉ id.toList := by
  rw [parent?, Option.map_eq_none_iff, cutLast?_eq_none_iff]

theorem parent?_child (h : separator ∉ name.toList) : parent? (child parent name) = some parent := by
  rw [parent?, toList_child, cutLast?_append h]
  simp

theorem simpleName_child (h : separator ∉ name.toList) : simpleName (child parent name) = name := by
  rw [simpleName, toList_child, cutLast?_append h]
  simp

theorem parent?_eq_some_iff :
    parent? id = some parent ↔
      ∃ name : String, separator ∉ name.toList ∧ id = child parent name := by
  constructor
  · intro h
    obtain ⟨⟨before, after⟩, hcut, rfl⟩ := Option.map_eq_some_iff.1 h
    obtain ⟨hid, hn⟩ := cutLast?_eq_some_iff.1 hcut
    refine ⟨String.ofList after, by simpa using hn, ?_⟩
    apply String.toList_injective
    simpa using hid
  · intro hex
    obtain ⟨name, hn, rfl⟩ := hex
    exact parent?_child hn

theorem child_simpleName (h : parent? id = some parent) : child parent (simpleName id) = id := by
  obtain ⟨name, hn, rfl⟩ := parent?_eq_some_iff.1 h
  rw [simpleName_child hn]

theorem child_injective {a b : String} (h : child parent a = child parent b) : a = b := by
  have hl := congrArg String.toList h
  simp only [toList_child, List.append_cancel_left_eq, List.cons.injEq, true_and] at hl
  exact String.toList_injective hl

/-- Only a name without a separator stands directly below. -/
theorem parent?_child_eq_some_iff :
    parent? (child parent name) = some parent ↔ separator ∉ name.toList := by
  constructor
  · intro h
    obtain ⟨name', hn, he⟩ := parent?_eq_some_iff.1 h
    rwa [child_injective he]
  · exact parent?_child

theorem parent?_ne_self : parent? id ≠ some id := by
  intro h
  exact absurd (length_parent?_lt h) (Nat.lt_irrefl _)

theorem child_eq_append : child parent name = parent ++ String.singleton separator ++ name := by
  apply String.toList_injective
  simp

theorem utf8ByteSize_parent?_lt (h : parent? id = some parent) :
    parent.utf8ByteSize < id.utf8ByteSize := by
  obtain ⟨name, -, rfl⟩ := parent?_eq_some_iff.1 h
  have hs : (String.singleton separator).utf8ByteSize = 1 := by decide
  rw [child_eq_append, String.utf8ByteSize_append, String.utf8ByteSize_append, hs]
  omega

/-- Induction from units towards the leaves. -/
@[elab_as_elim]
theorem parent_induction {motive : String → Prop}
    (unit : ∀ id, parent? id = none → motive id)
    (entity : ∀ id parent, parent? id = some parent → motive parent → motive id)
    (id : String) : motive id := by
  cases h : parent? id with
  | none => exact unit id h
  | some parent => exact entity id parent h (parent_induction unit entity parent)
termination_by id.toList.length
decreasing_by exact length_parent?_lt h

theorem ancestors_of_parent?_none (h : parent? id = none) : ancestors id = [] := by
  rw [ancestors]
  split
  · rfl
  · next parent hp => rw [h] at hp; cases hp

theorem ancestors_of_parent?_some (h : parent? id = some parent) :
    ancestors id = parent :: ancestors parent := by
  rw [ancestors]
  split
  · next hp => rw [h] at hp; cases hp
  · next p hp =>
    rw [h] at hp
    cases hp
    rfl

def Within (id root : String) : Prop := root = id ∨ root ∈ ancestors id

instance : Decidable (Within id root) := inferInstanceAs (Decidable (_ ∨ _))

theorem Within.refl (id : String) : Within id id := Or.inl rfl

theorem within_iff_of_parent?_none (h : parent? id = none) : Within id root ↔ root = id := by
  simp [Within, ancestors_of_parent?_none h]

theorem within_iff_of_parent?_some (h : parent? id = some parent) :
    Within id root ↔ root = id ∨ Within parent root := by
  simp [Within, ancestors_of_parent?_some h]

theorem Within.of_parent? (h : parent? id = some parent) : Within id parent :=
  (within_iff_of_parent?_some h).2 (Or.inr (Within.refl parent))

theorem Within.trans (hk : Within k id) (h : Within id root) : Within k root := by
  induction k using parent_induction with
  | unit k hp =>
    rw [within_iff_of_parent?_none hp] at hk
    exact hk ▸ h
  | entity k p hp ih =>
    rcases (within_iff_of_parent?_some hp).1 hk with rfl | hk
    · exact h
    · exact (within_iff_of_parent?_some hp).2 (Or.inr (ih hk))

theorem utf8ByteSize_lt_of_mem_ancestors (h : x ∈ ancestors id) :
    x.utf8ByteSize < id.utf8ByteSize := by
  induction id using parent_induction with
  | unit id hp =>
    rw [ancestors_of_parent?_none hp] at h
    cases h
  | entity id p hp ih =>
    have hlt := utf8ByteSize_parent?_lt hp
    rw [ancestors_of_parent?_some hp] at h
    rcases List.mem_cons.1 h with rfl | h
    · exact hlt
    · exact (ih h).trans hlt

theorem Within.utf8ByteSize_lt (h : Within id root) (hne : root ≠ id) :
    root.utf8ByteSize < id.utf8ByteSize :=
  utf8ByteSize_lt_of_mem_ancestors (h.resolve_left hne)

/-- No ancestor of an id lies within its subtree. -/
theorem not_within_of_mem_ancestors (h : x ∈ ancestors id) : ¬ Within x id := by
  intro hw
  have hlt := utf8ByteSize_lt_of_mem_ancestors h
  by_cases he : id = x
  · exact absurd hlt (he ▸ Nat.lt_irrefl _)
  · exact absurd (hw.utf8ByteSize_lt he) (Nat.lt_asymm hlt)

theorem not_within_of_parent? (h : parent? id = some parent) : ¬ Within parent id := by
  apply not_within_of_mem_ancestors
  rw [ancestors_of_parent?_some h]
  exact List.mem_cons_self

/-- The way up from `id` to an ancestor ends with a step from child to parent. -/
theorem exists_within_of_mem_ancestors (h : x ∈ ancestors id) :
    ∃ c, Within id c ∧ parent? c = some x := by
  induction id using parent_induction with
  | unit id hp =>
    rw [ancestors_of_parent?_none hp] at h
    cases h
  | entity id p hp ih =>
    rw [ancestors_of_parent?_some hp] at h
    rcases List.mem_cons.1 h with rfl | h
    · exact ⟨id, Within.refl id, hp⟩
    · obtain ⟨c, hw, hc⟩ := ih h
      exact ⟨c, (Within.of_parent? hp).trans hw, hc⟩

/-- The subtrees of two siblings have no id in common. -/
theorem Within.eq_of_parent?_eq {a b : String} (ha : Within k a) (hb : Within k b)
    (h : parent? a = parent? b) : a = b := by
  induction k using parent_induction with
  | unit k hp =>
    rw [(within_iff_of_parent?_none hp).1 ha, (within_iff_of_parent?_none hp).1 hb]
  | entity k p hp ih =>
    rcases (within_iff_of_parent?_some hp).1 ha with rfl | ha' <;>
      rcases (within_iff_of_parent?_some hp).1 hb with rfl | hb'
    · rfl
    · exact absurd hb' (not_within_of_parent? (h ▸ hp))
    · exact absurd ha' (not_within_of_parent? (h.symm ▸ hp))
    · exact ih ha' hb'

theorem Within.of_mem_ancestors (h : x ∈ ancestors id) : Within id x := Or.inr h

def Topmost (P : String → Prop) (id : String) : Prop := P id ∧ ∀ a ∈ ancestors id, ¬ P a

instance {P : String → Prop} [DecidablePred P] : DecidablePred (Topmost P) :=
  fun _ => inferInstanceAs (Decidable (_ ∧ _))

theorem sourcePath_of_parent?_none (h : parent? id = none) : sourcePath id = id := by
  rw [sourcePath, cutFirst?_eq_none_iff.2 (parent?_eq_none_iff.1 h)]

/-- An entity belongs to the unit of what it stands in, whatever its name. -/
@[simp]
theorem sourcePath_child : sourcePath (child parent name) = sourcePath parent := by
  by_cases h : separator ∈ parent.toList
  · have hcut : (cutFirst? separator (parent.toList ++ separator :: name.toList)).map Prod.fst =
        (cutFirst? separator parent.toList).map Prod.fst := cutFirst?_append_of_mem h
    rw [sourcePath, sourcePath, toList_child]
    cases hl : cutFirst? separator (parent.toList ++ separator :: name.toList) <;>
      cases hr : cutFirst? separator parent.toList <;> simp_all [cutFirst?_eq_none_iff]
  · have hp : parent? parent = none := parent?_eq_none_iff.2 h
    rw [sourcePath_of_parent?_none hp, sourcePath, toList_child, cutFirst?_append h]
    simp

theorem sourcePath_of_parent?_some (h : parent? id = some parent) :
    sourcePath id = sourcePath parent := by
  rw [← child_simpleName h, sourcePath_child]

theorem Within.sourcePath_eq (h : Within id root) : sourcePath id = sourcePath root := by
  induction id using parent_induction with
  | unit id hp => rw [(within_iff_of_parent?_none hp).1 h]
  | entity id p hp ih =>
    rcases (within_iff_of_parent?_some hp).1 h with rfl | h
    · rfl
    · rw [sourcePath_of_parent?_some hp, ih h]

theorem within_sourcePath (id : String) : Within id (sourcePath id) := by
  induction id using parent_induction with
  | unit id hp => rw [sourcePath_of_parent?_none hp]; exact Within.refl id
  | entity id p hp ih =>
    rw [sourcePath_of_parent?_some hp]
    exact (Within.of_parent? hp).trans ih

@[simp]
theorem parent?_sourcePath (id : String) : parent? (sourcePath id) = none := by
  induction id using parent_induction with
  | unit id hp => rw [sourcePath_of_parent?_none hp, hp]
  | entity id p hp ih => rw [sourcePath_of_parent?_some hp, ih]

def KeyFirst (key : String → Int) (a b : String) : Prop := key a < key b ∨ key a = key b ∧ a ≤ b

namespace KeyFirst

variable {key : String → Int} {a b c : String}

theorem trans (hab : KeyFirst key a b) (hbc : KeyFirst key b c) : KeyFirst key a c := by
  rcases hab with hab | ⟨hab, hle⟩
  · rcases hbc with hbc | ⟨hbc, -⟩ <;> exact Or.inl (by omega)
  · rcases hbc with hbc | ⟨hbc, hle'⟩
    · exact Or.inl (by omega)
    · exact Or.inr ⟨by omega, String.le_trans hle hle'⟩

theorem total (key : String → Int) (a b : String) : KeyFirst key a b ∨ KeyFirst key b a := by
  rcases Int.lt_trichotomy (key a) (key b) with h | h | h
  · exact Or.inl (Or.inl h)
  · rcases String.le_total a b with hle | hle
    · exact Or.inl (Or.inr ⟨h, hle⟩)
    · exact Or.inr (Or.inr ⟨h.symm, hle⟩)
  · exact Or.inr (Or.inl h)

theorem antisymm (hab : KeyFirst key a b) (hba : KeyFirst key b a) : a = b := by
  rcases hab with hab | ⟨hab, hle⟩ <;> rcases hba with hba | ⟨hba, hle'⟩
  · omega
  · omega
  · omega
  · exact String.le_antisymm hle hle'

end KeyFirst

theorem parentsFirst_iff {a b : String} :
    parentsFirst a b = true ↔ KeyFirst (fun id => id.utf8ByteSize) a b := by
  simp only [parentsFirst, KeyFirst, Bool.or_eq_true, Bool.and_eq_true, decide_eq_true_eq,
    Int.ofNat_lt, Int.ofNat_inj]

theorem childrenFirst_iff {a b : String} :
    childrenFirst a b = true ↔ KeyFirst (fun id => -id.utf8ByteSize) a b := by
  simp only [childrenFirst, KeyFirst, Bool.or_eq_true, Bool.and_eq_true, decide_eq_true_eq,
    Int.neg_lt_neg_iff, Int.neg_inj, Int.ofNat_lt, Int.ofNat_inj]

theorem pairwise_mergeSort {key : String → Int} {le : String → String → Bool}
    (hle : ∀ a b, le a b = true ↔ KeyFirst key a b) (ids : List String) :
    (ids.mergeSort le).Pairwise (KeyFirst key) := by
  have hsorted := List.pairwise_mergeSort
    (fun a b c hab hbc => (hle a c).2 (((hle a b).1 hab).trans ((hle b c).1 hbc)))
    (fun a b => by
      rw [Bool.or_eq_true, hle, hle]
      exact KeyFirst.total key a b) ids
  exact hsorted.imp fun {a b} hab => (hle a b).1 hab

/-- Sorting forgets in which order ids were collected. -/
theorem mergeSort_eq_of_perm {key : String → Int} {le : String → String → Bool}
    (hle : ∀ a b, le a b = true ↔ KeyFirst key a b) {as bs : List String} (h : as.Perm bs) :
    as.mergeSort le = bs.mergeSort le := by
  have hperm : (as.mergeSort le).Perm (bs.mergeSort le) :=
    (List.mergeSort_perm as le).trans (h.trans (List.mergeSort_perm bs le).symm)
  exact hperm.eq_of_pairwise (fun _ _ _ _ => KeyFirst.antisymm) (pairwise_mergeSort hle as)
    (pairwise_mergeSort hle bs)

/-- Lists in this order are known by their elements. -/
theorem eq_of_keyFirst {key : String → Int} {as bs : List String} (ha : as.Pairwise (KeyFirst key))
    (hb : bs.Pairwise (KeyFirst key)) (hna : as.Nodup) (hnb : bs.Nodup)
    (hmem : ∀ x, x ∈ as ↔ x ∈ bs) : as = bs :=
  List.Perm.eq_of_pairwise (fun _ _ _ _ => KeyFirst.antisymm) ha hb
    ((List.perm_ext_iff_of_nodup hna hnb).2 hmem)

theorem parent?_of_isValidPath (h : isValidPath id = true) : parent? id = none := by
  rw [parent?_eq_none_iff]
  simp only [isValidPath, isPath, Bool.and_eq_true, List.all_eq_true, decide_eq_true_eq] at h
  intro hm
  exact (h.1 _ hm).1 rfl

/-- Without a separator there is no entity in an id. -/
theorem segments?_of_parent?_none (h : parent? id = none) :
    segments? id = none ∨ segments? id = some [] := by
  rw [segments?, pieces_eq_singleton (parent?_eq_none_iff.1 h)]
  by_cases hp : isPath id.toList = true <;> simp [hp]

theorem exists_parent?_of_isValidEntity (h : isValidEntity id = true) :
    ∃ parent, parent? id = some parent := by
  rw [← Option.ne_none_iff_exists']
  intro hp
  rcases segments?_of_parent?_none hp with hs | hs <;>
    simp [isValidEntity, isValidType, isValidFunction, isValidVar, hs] at h

end SourceHistory.Id

namespace SourceHistory.Kind

variable {kind : Kind} {id : String}

theorem isValidNode_of_isValidId (h : kind.isValidId id = true) : Id.isValidNode id = true := by
  cases kind <;> simp_all [isValidId, Id.isValidNode, Id.isValidEntity]

theorem parent?_of_isValidId_unit (h : Kind.unit.isValidId id = true) : Id.parent? id = none :=
  Id.parent?_of_isValidPath h

theorem exists_parent?_of_isValidId (h : kind.isValidId id = true) (hk : kind ≠ .unit) :
    ∃ parent, Id.parent? id = some parent := by
  apply Id.exists_parent?_of_isValidEntity
  cases kind <;> simp_all [isValidId, Id.isValidEntity]

end SourceHistory.Kind
