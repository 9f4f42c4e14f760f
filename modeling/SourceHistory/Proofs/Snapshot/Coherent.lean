import SourceHistory.Snapshot
import SourceHistory.Proofs.Edit.Locality
import SourceHistory.Proofs.NodeIndex.Units

namespace SourceHistory

variable {s t : Snapshot} {u : SourceUnit} {path : String} {e : Edit}

theorem SourceUnit.ofNode?_eq_some_iff {n : Node} : ofNode? n = some u ↔ n = u.toNode := by
  constructor
  · exact eq_toNode_of_ofNode?
  · intro hn
    rw [hn, ofNode?_toNode]

theorem SourceUnit.exists_eq_toNode {n : Node} (h : n.kind = .unit) : ∃ u : SourceUnit, n = u.toNode := by
  obtain ⟨id, attributes, children⟩ := n
  cases attributes with
  | unit => exact ⟨⟨id, children⟩, rfl⟩
  | _ => cases h

/-- Entries that are not at paths do not count as units. -/
theorem NodeIndex.Consistent.unit_congr {index other : NodeIndex} {k : String}
    (hi : index.Consistent) (ho : other.Consistent)
    (h : Id.parent? k = none → index[k]? = other[k]?) :
    index[k]?.bind SourceUnit.ofNode? = other[k]?.bind SourceUnit.ofNode? := by
  have hnone : ∀ {i : NodeIndex}, i.Consistent → Id.parent? k ≠ none →
      i[k]?.bind SourceUnit.ofNode? = none := by
    intro i hi hp
    rw [Option.bind_eq_none_iff]
    intro n hn
    rw [← Option.not_isSome_iff_eq_none, Option.isSome_iff_exists]
    intro hex
    obtain ⟨u, hu⟩ := hex
    obtain rfl := SourceUnit.ofNode?_eq_some_iff.1 hu
    exact hp (hi.parent?_of_kind_unit hn rfl)
  by_cases hp : Id.parent? k = none
  · rw [h hp]
  · rw [hnone hi hp, hnone ho hp]

namespace Snapshot

/-- The index is consistent and the units are its entries at paths. -/
structure Coherent (s : Snapshot) : Prop where
  index : s.index.Consistent
  units : ∀ path : String, s.units[path]? = (s.index[path]?).bind SourceUnit.ofNode?

namespace Coherent

theorem units_eq_some_iff (h : s.Coherent) :
    s.units[path]? = some u ↔ s.index[path]? = some u.toNode := by
  rw [h.units, Option.bind_eq_some_iff]
  constructor
  · intro hex
    obtain ⟨n, hn, hu⟩ := hex
    rw [hn, SourceUnit.ofNode?_eq_some_iff.1 hu]
  · intro hn
    exact ⟨_, hn, SourceUnit.ofNode?_toNode u⟩

theorem path_eq (h : s.Coherent) (hu : s.units[path]? = some u) : u.path = path :=
  h.index.id_eq (h.units_eq_some_iff.1 hu)

theorem validate (h : s.Coherent) (hu : s.units[path]? = some u) : u.validate = .ok () :=
  h.index.validate (h.units_eq_some_iff.1 hu)

theorem index_path (h : s.Coherent) (hp : Id.parent? path = none) :
    s.index[path]? = s.units[path]?.map SourceUnit.toNode := by
  cases hu : s.units[path]? with
  | some u => exact h.units_eq_some_iff.1 hu
  | none =>
    cases hn : s.index[path]? with
    | none => rfl
    | some n =>
      obtain ⟨u, rfl⟩ := SourceUnit.exists_eq_toNode (h.index.kind_of_parent?_none hn hp)
      rw [h.units_eq_some_iff.2 hn] at hu
      cases hu

theorem ext_index (h : s.Coherent) (ht : t.Coherent) (he : s.index = t.index) : s = t := by
  have hu : s.units = t.units := by
    apply Std.ExtTreeMap.ext_getElem?
    intro path
    rw [h.units, ht.units, he]
  cases s
  cases t
  simp_all

theorem index_eq_of_units_eq (h : s.Coherent) (ht : t.Coherent) (he : s.units = t.units) :
    s.index = t.index := by
  apply h.index.ext_units ht.index
  intro path hp
  rw [h.index_path hp, ht.index_path hp, he]

theorem ext_units (h : s.Coherent) (ht : t.Coherent) (he : s.units = t.units) : s = t :=
  h.ext_index ht (h.index_eq_of_units_eq ht he)

end Coherent

def Keyed (map : NameMap SourceUnit) : Prop :=
  ∀ (path : String) (u : SourceUnit), map[path]? = some u → u.path = path ∧ u.validate = .ok ()

variable {map : NameMap SourceUnit}

theorem Keyed.map_path_values (h : Keyed map) : map.values.map SourceUnit.path = map.keys := by
  rw [NameMap.values_eq_map_toList, List.map_map, ← Std.ExtTreeMap.map_fst_toList_eq_keys]
  apply List.map_congr_left
  rintro ⟨path, u⟩ hm
  exact (h path u (Std.ExtTreeMap.mem_toList_iff_getElem?_eq_some.1 hm)).1

theorem Keyed.coherent (h : Keyed map) : Coherent ⟨map, NodeIndex.ofUnits map.values⟩ := by
  have hv : ∀ u ∈ map.values, u.validate = .ok () := by
    intro u hu
    obtain ⟨path, hu⟩ := (NameMap.mem_values_iff map u).1 hu
    exact (h path u hu).2
  have hnd : (map.values.map SourceUnit.path).Nodup :=
    h.map_path_values ▸ Std.ExtTreeMap.nodup_keys
  have hcons := NodeIndex.consistent_ofUnits hv hnd
  refine ⟨hcons, fun path => ?_⟩
  change map[path]? = ((NodeIndex.ofUnits map.values)[path]?).bind SourceUnit.ofNode?
  cases hu : map[path]? with
  | some u =>
    obtain ⟨rfl, -⟩ := h path u hu
    have hmem : u ∈ map.values := (NameMap.mem_values_iff map u).2 ⟨_, hu⟩
    rw [NodeIndex.getElem?_ofUnits_of_mem hv hnd hmem, Option.bind_some, SourceUnit.ofNode?_toNode]
  | none =>
    symm
    rw [Option.bind_eq_none_iff]
    intro n hn
    rw [← Option.not_isSome_iff_eq_none]
    intro hs
    obtain ⟨u, hun⟩ := Option.isSome_iff_exists.1 hs
    obtain rfl := SourceUnit.ofNode?_eq_some_iff.1 hun
    have hfresh : ∀ v ∈ map.values, v.path ≠ path := by
      rintro v hv' rfl
      obtain ⟨q, hq⟩ := (NameMap.mem_values_iff map v).1 hv'
      rw [(h q v hq).1, hq] at hu
      cases hu
    rw [NodeIndex.getElem?_ofUnits_of_not_mem hv hnd (hcons.parent?_of_kind_unit hn rfl) hfresh] at hn
    cases hn

theorem Coherent.keyed (h : s.Coherent) : Keyed s.units :=
  fun _ _ hu => ⟨h.path_eq hu, h.validate hu⟩

/-- A coherent snapshot holds the index of its units. -/
theorem Coherent.index_eq_ofUnits (h : s.Coherent) : s.index = NodeIndex.ofUnits s.units.values :=
  h.index_eq_of_units_eq h.keyed.coherent rfl

theorem Keyed.empty : Keyed ∅ := by
  intro path u hu
  simp at hu

theorem Keyed.insert (h : Keyed map) (hu : u.validate = .ok ()) : Keyed (map.insert u.path u) := by
  intro path v hv
  rw [NameMap.getElem?_insert] at hv
  split at hv
  · next hp =>
    obtain rfl := Option.some.inj hv
    exact ⟨hp, hu⟩
  · exact h path v hv

theorem Keyed.collect {units : List SourceUnit} {result : NameMap SourceUnit} (h : Keyed map)
    (hr : Snapshot.collect map units = .ok result) : Keyed result := by
  induction units generalizing map with
  | nil =>
    cases hr
    exact h
  | cons u units ih =>
    obtain ⟨hu, hr⟩ := check_bind_eq_ok_iff.1 hr
    cases hc : map.contains u.path with
    | true => simp [hc, bind, Except.bind, throw_eq_error] at hr
    | false =>
      simp only [hc, Bool.false_eq_true, if_false] at hr
      exact ih (h.insert hu) hr

/-- Valid units with new and different paths are taken as they are. -/
theorem exists_collect {units : List SourceUnit} (hv : ∀ u ∈ units, u.validate = .ok ())
    (hnd : (units.map SourceUnit.path).Nodup) (hfresh : ∀ u ∈ units, map[u.path]? = none) :
    ∃ result, collect map units = .ok result ∧ (∀ u ∈ units, result[u.path]? = some u) ∧
      ∀ k : String, k ∉ units.map SourceUnit.path → result[k]? = map[k]? := by
  induction units generalizing map with
  | nil => exact ⟨map, rfl, nofun, fun _ _ => rfl⟩
  | cons u units ih =>
    obtain ⟨hu, hv⟩ := List.forall_mem_cons.1 hv
    obtain ⟨hnew, hnd⟩ := List.nodup_cons.1 hnd
    obtain ⟨hfu, hfresh⟩ := List.forall_mem_cons.1 hfresh
    have hfresh' : ∀ v ∈ units, (map.insert u.path u)[v.path]? = none := by
      intro v hmem
      have hne : v.path ≠ u.path := fun he => hnew (he ▸ List.mem_map_of_mem hmem)
      rw [NameMap.getElem?_insert_of_ne _ _ hne, hfresh v hmem]
    obtain ⟨result, hr, hget, hrest⟩ := ih hv hnd hfresh'
    refine ⟨result, ?_, List.forall_mem_cons.2 ⟨?_, hget⟩, fun k hk => ?_⟩
    · have hc : map.contains u.path = false := (NameMap.contains_eq_false_iff map u.path).2 hfu
      simp only [collect, hu, hc, Bool.false_eq_true, if_false]
      exact hr
    · rw [hrest u.path hnew, NameMap.getElem?_insert, if_pos rfl]
    · obtain ⟨hne, hk⟩ := not_or.1 (mt List.mem_cons.2 hk)
      rw [hrest k hk, NameMap.getElem?_insert_of_ne _ _ hne]

theorem coherent_empty : Coherent .empty where
  index := NodeIndex.Consistent.empty
  units path := by simp [Snapshot.empty]

theorem coherent_of_ofUnits {units : List SourceUnit} (h : ofUnits units = .ok s) : s.Coherent := by
  obtain ⟨map, hmap, hs⟩ := bind_eq_ok_iff.1 h
  obtain rfl := pure_eq_ok_iff.1 hs
  exact (Keyed.empty.collect hmap).coherent

/-- A coherent snapshot is the one of its units, in whatever order they are listed. -/
theorem Coherent.ofUnits_eq (h : s.Coherent) {paths : List String} {units : List SourceUnit}
    (hnd : paths.Nodup) (hall : List.Forall₂ (fun path u => s.units[path]? = some u) paths units)
    (hcover : ∀ path u, s.units[path]? = some u → path ∈ paths) :
    Snapshot.ofUnits units = .ok s := by
  have hpaths : units.map SourceUnit.path = paths := by
    clear hnd hcover
    induction hall with
    | nil => rfl
    | cons hu _ ih => rw [List.map_cons, h.path_eq hu, ih]
  have hget : ∀ u ∈ units, s.units[u.path]? = some u := by
    clear hnd hcover hpaths
    intro u hu
    induction hall with
    | nil => cases hu
    | cons hv _ ih =>
      rcases List.mem_cons.1 hu with rfl | hu
      · rw [h.path_eq hv, hv]
      · exact ih hu
  have hfresh : ∀ u ∈ units, (∅ : NameMap SourceUnit)[u.path]? = none := by simp
  obtain ⟨map, hmap, hin, hout⟩ :=
    exists_collect (fun u hu => h.validate (hget u hu)) (hpaths ▸ hnd) hfresh
  have hunits : map = s.units := by
    apply Std.ExtTreeMap.ext_getElem?
    intro k
    by_cases hk : k ∈ units.map SourceUnit.path
    · obtain ⟨u, hu, rfl⟩ := List.mem_map.1 hk
      rw [hin u hu, hget u hu]
    · rw [hout k hk]
      cases hu : s.units[k]? with
      | none => simp
      | some u => exact absurd (hpaths ▸ hcover k u hu) hk
  rw [ofUnits, hmap, hunits]
  change Except.ok (⟨s.units, NodeIndex.ofUnits s.units.values⟩ : Snapshot) = .ok s
  rw [← h.index_eq_ofUnits]

theorem index_refreshUnit : (s.refreshUnit path).index = s.index := by
  rw [refreshUnit]
  split <;> rfl

theorem units_refreshUnit (k : String) :
    (s.refreshUnit path).units[k]? =
      if path = k then (s.index[path]?).bind SourceUnit.ofNode? else s.units[k]? := by
  rw [refreshUnit]
  split
  · next u hu => rw [NameMap.getElem?_insert, hu]
  · next hu => rw [NameMap.getElem?_erase, hu]

/-- An edit keeps all units but its own. -/
theorem unit_applyTo_of_ne {index rebuilt : NodeIndex} {k : String} (h : index.Consistent)
    (hc : e.check = .ok ()) (hdone : e.applyTo index = .done rebuilt) (hcons : rebuilt.Consistent)
    (hk : k ≠ e.sourcePath) :
    rebuilt[k]?.bind SourceUnit.ofNode? = index[k]?.bind SourceUnit.ofNode? := by
  refine hcons.unit_congr h fun hp => ?_
  have hsame : (e.applyTo index).state[k]? = index[k]? := by
    apply Edit.getElem?_applyTo_of_sourcePath_ne h.toSound hc
    rwa [Id.sourcePath_of_parent?_none hp]
  rw [hdone] at hsame
  exact hsame

theorem Coherent.apply_done (h : s.Coherent) (hc : e.check = .ok ()) {rebuilt : NodeIndex}
    (hdone : e.applyTo s.index = .done rebuilt) (hcons : rebuilt.Consistent) :
    ∃ t, s.apply e = .done t ∧ t.Coherent ∧ t.index = rebuilt := by
  have happly : s.apply e = .done (refreshUnit ⟨s.units, rebuilt⟩ e.sourcePath) := by
    simp [apply, hdone]
  refine ⟨_, happly, ⟨?_, fun k => ?_⟩, index_refreshUnit⟩
  · rw [index_refreshUnit]
    exact hcons
  · rw [units_refreshUnit, index_refreshUnit]
    change (if e.sourcePath = k then rebuilt[e.sourcePath]?.bind SourceUnit.ofNode? else s.units[k]?) =
      rebuilt[k]?.bind SourceUnit.ofNode?
    split
    · next hk => rw [hk]
    · next hk =>
      rw [h.units, unit_applyTo_of_ne h.index hc hdone hcons (Ne.symm hk)]

/-- An edit is refused by a check and leaves the snapshot alone, or the rebuild after its write goes
through and leads to a coherent snapshot. -/
theorem Coherent.apply_stages (h : s.Coherent) (hc : e.check = .ok ()) :
    (∃ error, Edit.stage s.index e = .error error ∧ s.apply e = .failed s error) ∨
    ∃ staged t, Edit.stage s.index e = .ok staged ∧
      NodeIndex.rebuildAncestors staged e.id = .done t.index ∧ s.apply e = .done t ∧ t.Coherent := by
  rcases Edit.applyTo_cases h.index hc with
    ⟨error, hs, hfail⟩ | ⟨staged, rebuilt, hs, -, hdone, hcons, -⟩
  · refine Or.inl ⟨error, hs, ?_⟩
    simp [apply, hfail]
  · obtain ⟨t, happly, ht, rfl⟩ := h.apply_done hc hdone hcons
    rw [Edit.applyTo, hs] at hdone
    exact Or.inr ⟨staged, t, hs, hdone, happly, ht⟩

/-- An edit fails and leaves the snapshot alone, or leads to a coherent one. -/
theorem Coherent.apply_cases (h : s.Coherent) (hc : e.check = .ok ()) :
    (∃ error, e.applyTo s.index = .failed s.index error ∧ s.apply e = .failed s error) ∨
    ∃ t, e.applyTo s.index = .done t.index ∧ s.apply e = .done t ∧ t.Coherent := by
  rcases h.apply_stages hc with ⟨error, hs, happly⟩ | ⟨staged, t, hs, hdone, happly, ht⟩
  · exact Or.inl ⟨error, by rw [Edit.applyTo, hs], happly⟩
  · exact Or.inr ⟨t, by rw [Edit.applyTo, hs]; exact hdone, happly, ht⟩

/-- What an edit that goes through did. -/
theorem Coherent.exists_stage_of_apply_eq_done (h : s.Coherent) (hc : e.check = .ok ())
    (happly : s.apply e = .done t) :
    ∃ staged, Edit.stage s.index e = .ok staged ∧
      NodeIndex.rebuildAncestors staged e.id = .done t.index ∧ e.applyTo s.index = .done t.index ∧
      t.Coherent := by
  rcases h.apply_stages hc with ⟨error, -, hfail⟩ | ⟨staged, t', hs, hdone, happly', ht⟩
  · rw [happly] at hfail
    cases congrArg Attempt.error? hfail
  · obtain rfl : t = t' := congrArg Attempt.state (happly.symm.trans happly')
    exact ⟨staged, hs, hdone, by rw [Edit.applyTo, hs]; exact hdone, ht⟩

end Snapshot

end SourceHistory
