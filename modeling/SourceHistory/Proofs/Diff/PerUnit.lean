import SourceHistory.Proofs.Diff.Unit

namespace SourceHistory

namespace NodeIndex

open SourceHistory.Id (Within)

variable {before after before' after' : NodeIndex} {path k : String}

/-- `small` holds what `index` has of the unit at `path`, and nothing else. -/
def Part (path : String) (index small : NodeIndex) : Prop :=
  ∀ k : String, small[k]? = if Id.sourcePath k = path then index[k]? else none

theorem Part.getElem?_eq (h : Part path before before') (hk : Id.sourcePath k = path) :
    before'[k]? = before[k]? := by
  rw [h k, if_pos hk]

theorem Part.exists_getElem?_iff (h : Part path before before') :
    (∃ n, before'[k]? = some n) ↔ (∃ n, before[k]? = some n) ∧ Id.sourcePath k = path := by
  rw [h k]
  split
  · next hk => simp [hk]
  · next hk => simp [hk]

theorem Part.moved_iff (hb : Part path before before') (ha : Part path after after')
    (hk : Id.sourcePath k = path) : Moved before' after' k ↔ Moved before after k := by
  rw [Moved, Moved, kindAt, kindAt, kindAt, kindAt, hb.getElem?_eq hk, ha.getElem?_eq hk]

theorem Part.moves_eq (hb : Part path before before') (ha : Part path after after')
    (hk : Id.sourcePath k = path) : moves before' after' k = moves before after k := by
  have htop : Id.Topmost (Moved before' after') k ↔ Id.Topmost (Moved before after) k := by
    rw [Id.Topmost, Id.Topmost, hb.moved_iff ha hk]
    refine and_congr_right fun _ => forall₂_congr fun a hm => not_congr ?_
    have hw : Within k a := .of_mem_ancestors hm
    exact hb.moved_iff ha (hw.sourcePath_eq.symm.trans hk)
  rw [moves, moves, structuralEdits, structuralEdits, hb.getElem?_eq hk, ha.getElem?_eq hk]
  exact if_congr htop rfl rfl

theorem Part.amendments_eq (hb : Part path before before') (ha : Part path after after')
    (hk : Id.sourcePath k = path) : amendments before' after' k = amendments before after k := by
  rw [amendments, amendments, hb.getElem?_eq hk, ha.getElem?_eq hk]

theorem Part.unionIds_eq (hb : Part path before before') (ha : Part path after after') :
    unionIds before' after' = (unionIds before after).filter (Id.sourcePath · = path) := by
  apply Id.eq_of_keyFirst (pairwise_unionIds _ _) ((pairwise_unionIds _ _).filter _)
    (nodup_unionIds _ _) ((nodup_unionIds _ _).filter _)
  intro k
  rw [List.mem_filter, mem_unionIds_iff, mem_unionIds_iff, hb.exists_getElem?_iff,
    ha.exists_getElem?_iff, decide_eq_true_eq, or_and_right]

theorem Part.keys_eq (ha : Part path after after') :
    after'.keys.mergeSort Id.childrenFirst =
      (after.keys.mergeSort Id.childrenFirst).filter (Id.sourcePath · = path) := by
  have hsorted (index : NodeIndex) := Id.pairwise_mergeSort (fun _ _ => Id.childrenFirst_iff) index.keys
  have hnd (index : NodeIndex) : (index.keys.mergeSort Id.childrenFirst).Nodup :=
    List.nodup_mergeSort.2 Std.ExtTreeMap.nodup_keys
  apply Id.eq_of_keyFirst (hsorted after') ((hsorted after).filter _) (hnd after')
    ((hnd after).filter _)
  intro k
  rw [List.mem_filter, List.mem_mergeSort, List.mem_mergeSort, NameMap.mem_keys_iff,
    NameMap.mem_keys_iff, ha.exists_getElem?_iff, decide_eq_true_eq]

/-- The edits of one unit are those of its part of both indexes. -/
theorem Part.difference_eq (hb : Part path before before') (ha : Part path after after')
    (hcb : before.Consistent) (hca : after.Consistent) :
    difference before' after' = (difference before after).filter fun e => e.sourcePath = path := by
  have hfilter (ids : List String) (f : String → List Edit) (hid : ∀ k, ∀ e ∈ f k, e.id = k) :
      (ids.flatMap f).filter (fun e => e.sourcePath = path) =
        (ids.filter (Id.sourcePath · = path)).flatMap f :=
    filter_flatMap_of_id hid (Id.sourcePath · = path)
  have hmem (ids : List String) {k : String} (hk : k ∈ ids.filter (Id.sourcePath · = path)) :
      Id.sourcePath k = path := of_decide_eq_true (List.mem_filter.1 hk).2
  rw [difference, difference, hb.unionIds_eq ha, ha.keys_eq, List.filter_append,
    hfilter _ _ fun _ _ => id_of_mem_moves hca, hfilter _ _ fun _ _ => id_of_mem_amendments hcb,
    List.flatMap_congr fun k hk => hb.moves_eq ha (hmem _ hk),
    List.flatMap_congr fun k hk => hb.amendments_eq ha (hmem _ hk)]

end NodeIndex

namespace Snapshot

variable {s t : Snapshot} {path : String}

theorem Coherent.part (h : s.Coherent) (path : String) :
    NodeIndex.Part path s.index (NodeIndex.ofUnits s.units[path]?.toList) := by
  intro k
  split
  · next hk =>
    have hp : Id.parent? path = none := hk ▸ Id.parent?_sourcePath k
    exact (h.agreeOn_ofVersion hp k hk).symm
  · next hk =>
    rw [Option.eq_none_iff_forall_ne_some]
    intro n hn
    exact hk (NodeIndex.sourcePath_of_ofVersion (h.isVersion path) hn)

theorem Coherent.diffUnit_eq (hs : s.Coherent) (ht : t.Coherent) (path : String) :
    diffUnit s.units[path]? t.units[path]? =
      .ok ((NodeIndex.difference s.index t.index).filter fun e => e.sourcePath = path) := by
  have hold := NodeIndex.consistent_ofVersion (hs.isVersion path)
  have hnew := NodeIndex.consistent_ofVersion (ht.isVersion path)
  rw [diffUnit, (NodeIndex.diff_eq hold hnew).1,
    (hs.part path).difference_eq (ht.part path) hs.index ht.index]

theorem Coherent.parent?_of_contains (h : s.Coherent) (hin : s.units.contains path = true) :
    Id.parent? path = none := by
  obtain ⟨u, hu⟩ := (NameMap.contains_eq_true_iff s.units path).1 hin
  exact h.path_eq hu ▸ SourceUnit.parent?_path (h.validate hu)

/-- The differences of all units that either side has, in any order of their paths. -/
theorem Coherent.exists_applyAll_diffUnits (hs : s.Coherent) (ht : t.Coherent)
    {paths : List String} (hnd : paths.Nodup)
    (hcover : ∀ path, path ∈ paths ↔ s.units.contains path = true ∨ t.units.contains path = true) :
    ∃ lists, paths.mapM (fun path => diffUnit s.units[path]? t.units[path]?) = .ok lists ∧
      s.applyAll lists.flatten = .done t := by
  have hparent : ∀ path ∈ paths, Id.parent? path = none := by
    intro path hp
    rcases (hcover path).1 hp with hin | hin
    · exact hs.parent?_of_contains hin
    · exact ht.parent?_of_contains hin
  obtain ⟨lists, hmap, -⟩ := exists_mapM (R := fun _ _ => True) fun path (_ : path ∈ paths) =>
    ⟨_, hs.diffUnit_eq ht path, trivial⟩
  obtain ⟨final, hreplay, hchecks, hfinal, hin, hout⟩ :=
    hs.exists_replay_diffUnits (s := s) (Q := fun path version => version = t.units[path]?) hnd hparent
      (fun _ _ => rfl) (fun path _ edits he => ⟨_, rfl, ht.isVersion path, he⟩) hmap
  refine ⟨lists, hmap, ?_⟩
  have hunits : final.units = t.units := by
    apply Std.ExtTreeMap.ext_getElem?
    intro path
    by_cases hpaths : path ∈ paths
    · exact hin path hpaths
    · obtain ⟨hold, hnew⟩ := not_or.1 (mt (hcover path).2 hpaths)
      rw [Bool.not_eq_true, NameMap.contains_eq_false_iff] at hold hnew
      rw [hout path hpaths, hold, hnew]
  rw [hs.applyAll_eq hchecks, hreplay, hfinal.ext_units ht hunits]

/-- The edits of a difference that are about one path are the difference of the two versions of its
unit. So the differences of all units that either side has, in any order of their paths, lead from the
one snapshot to the other. -/
theorem diff_per_unit (hs : s.Reachable) (ht : t.Reachable) :
    ∃ edits, s.diff t = .ok edits ∧
      (∀ path : String, diffUnit s.units[path]? t.units[path]? =
        .ok (edits.filter fun e => e.sourcePath = path)) ∧
      ∀ paths : List String, paths.Nodup →
        (∀ path, path ∈ paths ↔ s.units.contains path = true ∨ t.units.contains path = true) →
        ∃ lists, paths.mapM (fun path => diffUnit s.units[path]? t.units[path]?) = .ok lists ∧
          s.applyAll lists.flatten = .done t := by
  have hdiff := (NodeIndex.diff_eq hs.coherent.index ht.coherent.index).1
  refine ⟨_, hdiff, hs.coherent.diffUnit_eq ht.coherent, fun paths hnd hcover => ?_⟩
  exact hs.coherent.exists_applyAll_diffUnits ht.coherent hnd hcover

theorem diff_per_unit_of_addNode :
    let s := (Snapshot.empty.apply (.addNode ⟨"a", .unit, []⟩)).state
    let t := (Snapshot.empty.apply (.addNode ⟨"b", .unit, [⟨"b:x", .type ∅ ∅, []⟩]⟩)).state
    ∃ lists, ["b", "a"].mapM (fun path => diffUnit s.units[path]? t.units[path]?) = .ok lists ∧
      s.applyAll lists.flatten = .done t := by
  intro s t
  have hs : s.Reachable := .apply .empty rfl
  have ht : t.Reachable := .apply .empty rfl
  have hold : s.units.keys = ["a"] := by decide +kernel
  have hnew : t.units.keys = ["b"] := by decide +kernel
  obtain ⟨edits, -, -, hlists⟩ := diff_per_unit hs ht
  refine hlists ["b", "a"] (by decide) fun path => ?_
  rw [Std.ExtTreeMap.contains_iff_mem, Std.ExtTreeMap.contains_iff_mem, ← Std.ExtTreeMap.mem_keys,
    ← Std.ExtTreeMap.mem_keys, hold, hnew]
  simp [or_comm]

end Snapshot

end SourceHistory
