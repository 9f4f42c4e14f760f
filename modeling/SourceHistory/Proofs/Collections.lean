import SourceHistory.Collections

namespace SourceHistory

theorem nodup_toList {α : Type} [Ord α] [Std.TransOrd α] [Std.LawfulEqOrd α]
    (set : Std.ExtTreeSet α) : set.toList.Nodup :=
  Std.ExtTreeSet.distinct_toList.imp fun h he => h (Std.LawfulEqCmp.compare_eq_iff_eq.2 he)

theorem NameSet.ofList_toList (set : NameSet) : (.ofList set.toList : NameSet) = set := by
  apply Std.ExtTreeSet.ext_mem
  intro s
  simp

namespace NameMap

variable {α : Type}

theorem getElem?_insert (m : NameMap α) (key : String) (value : α) (k : String) :
    (m.insert key value)[k]? = if key = k then some value else m[k]? := by
  rw [Std.ExtTreeMap.getElem?_insert]
  simp

theorem getElem?_erase (m : NameMap α) (key k : String) :
    (m.erase key)[k]? = if key = k then none else m[k]? := by
  rw [Std.ExtTreeMap.getElem?_erase]
  simp

theorem getElem?_insert_of_ne (m : NameMap α) {key k : String} (value : α) (h : k ≠ key) :
    (m.insert key value)[k]? = m[k]? := by
  rw [getElem?_insert, if_neg (Ne.symm h)]

theorem getElem?_erase_of_ne (m : NameMap α) {key k : String} (h : k ≠ key) :
    (m.erase key)[k]? = m[k]? := by
  rw [getElem?_erase, if_neg (Ne.symm h)]

theorem getElem?_insertIfNew (m : NameMap α) (key : String) (value : α) (k : String) :
    (m.insertIfNew key value)[k]? = if key = k ∧ m[key]? = none then some value else m[k]? := by
  have hmem : key ∉ m ↔ m[key]? = none := by
    rw [Std.ExtTreeMap.mem_iff_isSome_getElem?, Option.not_isSome_iff_eq_none]
  rw [Std.ExtTreeMap.getElem?_insertIfNew]
  simp only [Std.LawfulEqCmp.compare_eq_iff_eq, hmem]

theorem contains_eq_true_iff (m : NameMap α) (k : String) :
    m.contains k = true ↔ ∃ value, m[k]? = some value := by
  rw [Std.ExtTreeMap.contains_eq_isSome_getElem?, Option.isSome_iff_exists]

theorem contains_eq_false_iff (m : NameMap α) (k : String) :
    m.contains k = false ↔ m[k]? = none := by
  rw [Std.ExtTreeMap.contains_eq_isSome_getElem?, Option.isSome_eq_false_iff, Option.isNone_iff_eq_none]

theorem contains_insert_of_some (m : NameMap α) {key : String} {old : α} (h : m[key]? = some old)
    (value : α) (k : String) : (m.insert key value).contains k = m.contains k := by
  rw [Std.ExtTreeMap.contains_eq_isSome_getElem?, getElem?_insert,
    Std.ExtTreeMap.contains_eq_isSome_getElem?]
  split
  · next hk => rw [← hk, h]; rfl
  · rfl

theorem mem_keys_iff (m : NameMap α) (k : String) :
    k ∈ m.keys ↔ ∃ value, m[k]? = some value := by
  rw [Std.ExtTreeMap.mem_keys, ← Std.ExtTreeMap.contains_iff_mem, contains_eq_true_iff]

theorem not_mem_keys_iff (m : NameMap α) (k : String) : k ∉ m.keys ↔ m[k]? = none := by
  rw [mem_keys_iff, ← Option.ne_none_iff_exists', ne_eq, Classical.not_not]

theorem mem_ofList_keys (m : NameMap α) (k : String) : k ∈ (.ofList m.keys : NameSet) ↔ k ∈ m := by
  rw [Std.ExtTreeSet.mem_ofList, List.contains_iff_mem, Std.ExtTreeMap.mem_keys]

theorem mem_ofList_keys_iff (m : NameMap α) (k : String) :
    k ∈ (.ofList m.keys : NameSet) ↔ m[k]? ≠ none := by
  rw [mem_ofList_keys, Std.ExtTreeMap.mem_iff_isSome_getElem?, Option.isSome_iff_ne_none]

theorem ascending_keys (m : NameMap α) : m.keys.Pairwise (· < ·) := by
  refine Std.ExtTreeMap.ordered_keys.imp fun {a b} h => ?_
  change compareOfLessAndEq a b = .lt at h
  exact compareOfLessAndEq_eq_lt.1 h

/-- The values of a map are those of its list of entries, in the same order. -/
theorem values_eq_map_toList (m : NameMap α) : m.values = m.toList.map Prod.snd := by
  obtain ⟨⟨q⟩⟩ := m
  induction q using Quotient.ind with
  | _ t =>
    change t.inner.values = (Std.DTreeMap.Internal.Impl.Const.toList t.inner).map Prod.snd
    rw [Std.DTreeMap.Internal.Impl.values_eq_map_snd,
      Std.DTreeMap.Internal.Impl.Const.toList_eq_toListModel_map]
    simp

theorem mem_values_iff (m : NameMap α) (value : α) :
    value ∈ m.values ↔ ∃ k : String, m[k]? = some value := by
  rw [values_eq_map_toList, List.mem_map]
  constructor
  · intro hex
    obtain ⟨⟨k, v⟩, hm, rfl⟩ := hex
    exact ⟨k, Std.ExtTreeMap.mem_toList_iff_getElem?_eq_some.1 hm⟩
  · intro hex
    obtain ⟨k, hk⟩ := hex
    exact ⟨(k, value), Std.ExtTreeMap.mem_toList_iff_getElem?_eq_some.2 hk, rfl⟩

end NameMap

end SourceHistory
