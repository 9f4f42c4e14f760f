import SourceHistory.Proofs.NodeIndex.Operations
import SourceHistory.Proofs.NodeIndex.Walk
import SourceHistory.Proofs.Snapshot.Reachable

namespace SourceHistory

open SourceHistory.Id (Within)

open NodeIndex (Apart)

variable {s : Snapshot} {index : NodeIndex} {k path : String} {n : Node}

namespace Snapshot

namespace Coherent

theorem parent?_of_mem_keys (h : s.Coherent) (hp : path ∈ s.units.keys) : Id.parent? path = none := by
  obtain ⟨u, hu⟩ := (NameMap.mem_keys_iff s.units path).1 hp
  rw [← h.path_eq hu]
  exact SourceUnit.parent?_path (h.validate hu)

theorem apart_keys (h : s.Coherent) : Apart s.units.keys := by
  refine NodeIndex.apart_of_parent?_eq Std.ExtTreeMap.nodup_keys fun a ha b hb => ?_
  rw [h.parent?_of_mem_keys ha, h.parent?_of_mem_keys hb]

theorem walk_eq (h : s.Coherent) : s.walk = s.unitList.flatMap fun u => u.toNode.preorder := by
  have hkeys : (s.unitList.map SourceUnit.toNode).map Node.id = s.units.keys := by
    rw [List.map_map]
    exact h.keyed.map_path_values
  have hroots : ∀ r ∈ s.unitList.map SourceUnit.toNode, s.index[r.id]? = some r := by
    intro r hr
    obtain ⟨u, hu, rfl⟩ := List.mem_map.1 hr
    obtain ⟨path, hu⟩ := (NameMap.mem_values_iff s.units u).1 hu
    have hentry := h.units_eq_some_iff.1 hu
    rwa [← h.path_eq hu] at hentry
  have hwalk := h.index.walkAll_eq hroots (hkeys ▸ h.apart_keys)
  rwa [hkeys, List.flatMap_map] at hwalk

/-- A walk has all entries and nothing else. -/
theorem mem_walk_iff (h : s.Coherent) : n ∈ s.walk ↔ s.index[n.id]? = some n := by
  constructor
  · intro hn
    exact (h.index.toSound.mem_visit hn).1
  · intro hn
    obtain ⟨r, hr, hmem⟩ := h.index.exists_mem_preorder hn (Id.within_sourcePath n.id)
    have hunit := h.index.kind_of_parent?_none hr (Id.parent?_sourcePath n.id)
    obtain ⟨u, rfl⟩ := SourceUnit.exists_eq_toNode hunit
    rw [h.walk_eq, List.mem_flatMap]
    exact ⟨u, (NameMap.mem_values_iff s.units u).2 ⟨_, h.units_eq_some_iff.2 hr⟩, hmem⟩

theorem walkFrom_eq (h : s.Coherent) (hk : s.index[k]? = some n) :
    s.walkFrom k = .ok n.preorder ∧ s.index.Yields [k] n.preorder := by
  have hyields : s.index.Yields [k] n.preorder := by
    simpa using h.index.yields_preorder hk (.done rfl)
  obtain ⟨nodes, hwalk, hnodes, -⟩ := h.index.toSound.exists_walk hk
  refine ⟨?_, hyields⟩
  rw [walkFrom, hwalk, hnodes.unique hyields]

end Coherent

/-- A walk of a snapshot is the preorder of its units by path, members by id: every entry comes up
once, after all of its ancestors. From one id it is the preorder of the node there. On any index,
consistent or not, a walk ends, repeats no id and stays within its root. -/
theorem walks_enumerate_subtrees (h : s.Reachable) (hi : index.Reached) :
    (s.walk = s.unitList.flatMap (fun u => u.toNode.preorder) ∧
      s.index.Yields s.units.keys s.walk ∧
      (s.unitList.map SourceUnit.path).Pairwise (· < ·) ∧
      ∀ n ∈ s.walk, n.kind = .unit ∨ n.kind = .type → n.childIds.Pairwise (· < ·)) ∧
    ((s.walk.map Node.id).Nodup ∧
      (∀ (id : String) (n : Node), s.index[id]? = some n ↔ n ∈ s.walk ∧ n.id = id) ∧
      ∀ before n after, s.walk = before ++ n :: after →
        ∀ a ∈ Id.ancestors n.id, a ∈ before.map Node.id) ∧
    (∀ (id : String) (n : Node), s.index[id]? = some n →
      s.walkFrom id = .ok n.preorder ∧ s.index.Yields [id] n.preorder) ∧
    ∀ (id : String) (n : Node), index[id]? = some n →
      ∃ nodes, index.walk id = .ok nodes ∧ index.Yields [id] nodes ∧
        (nodes.map Node.id).Nodup ∧ ∀ m ∈ nodes, Within m.id id := by
  have hs := h.coherent
  have hsound := hs.index.toSound
  refine ⟨⟨hs.walk_eq, hsound.yields_walkAll hs.apart_keys, ?_, ?_⟩,
    ⟨hsound.nodup_visit hs.apart_keys, ?_, ?_⟩, fun id n hn => hs.walkFrom_eq hn,
    fun id n hn => hi.valid.sound.exists_walk hn⟩
  · rw [unitList, hs.keyed.map_path_values]
    exact NameMap.ascending_keys s.units
  · intro n hn hkind
    apply (hs.index.wellFormed (hs.mem_walk_iff.1 hn)).sorted
    rcases hkind with hkind | hkind <;> rw [hkind] <;> rfl
  · intro id n
    constructor
    · intro hn
      have hid := hs.index.id_eq hn
      exact ⟨hs.mem_walk_iff.2 (hid ▸ hn), hid⟩
    · intro hand
      obtain ⟨hn, rfl⟩ := hand
      exact hs.mem_walk_iff.1 hn
  · intro before n after hwalk
    exact hsound.ancestors_before (fun path hp => hs.parent?_of_mem_keys hp) hwalk

/-- Parameters that do not ascend, and a type whose unit still holds its members. -/
theorem walks_enumerate_subtrees_of_stale :
    let x : Node := ⟨"a:f():x", .var ∅ [], []⟩
    let y : Node := ⟨"a:f():y", .var ∅ [], []⟩
    let f : Node := ⟨"a:f()", .function ∅ [], [y, x]⟩
    let s := (Snapshot.empty.apply (.addNode ⟨"a", .unit, [f]⟩)).state
    let stale := NodeIndex.replace
      (NodeIndex.insertSubtree ∅ ⟨"b", .unit, [⟨"b:T", .type ∅ ∅, [⟨"b:T:z", .var ∅ [], []⟩]⟩]⟩)
      ⟨"b:T", .type ∅ ∅, []⟩
    s.walkFrom "a:f()" = .ok [f, y, x] ∧
      ∃ nodes, stale.walk "b" = .ok nodes ∧ stale.Yields ["b"] nodes ∧
        (nodes.map Node.id).Nodup ∧ ∀ m ∈ nodes, Within m.id "b" := by
  intro x y f s stale
  have hs : s.Reachable := .apply .empty (by decide +kernel)
  have hstale : stale.Reached := by
    refine .replace (.insertSubtree .empty ?_) ?_ <;> exact Node.constructed_iff.2 (by decide +kernel)
  have hf : s.index["a:f()"]? = some f := by decide +kernel
  have hb : stale.contains "b" = true := by decide +kernel
  obtain ⟨b, hb⟩ := (NameMap.contains_eq_true_iff stale "b").1 hb
  obtain ⟨-, -, hfrom, hany⟩ := walks_enumerate_subtrees hs hstale
  exact ⟨(hfrom "a:f()" f hf).1, hany "b" b hb⟩

end Snapshot

end SourceHistory
