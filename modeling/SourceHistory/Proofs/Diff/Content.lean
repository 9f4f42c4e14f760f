import SourceHistory.Proofs.Diff.RoundTrip

namespace SourceHistory

namespace NodeIndex

open SourceHistory.Id (Within Topmost)

variable {before after index : NodeIndex} {k : String}

def Gone (before after : NodeIndex) (k : String) : Prop :=
  before.contains k = true ∧ after.contains k = false

def Replaced (before after : NodeIndex) (k : String) : Prop :=
  before.contains k = true ∧ after.contains k = true ∧ before.kindAt k ≠ after.kindAt k

instance : DecidablePred (Gone before after) := fun _ => inferInstanceAs (Decidable (_ ∧ _))

instance : DecidablePred (Replaced before after) := fun _ => inferInstanceAs (Decidable (_ ∧ _ ∧ _))

theorem gone_or_replaced_iff :
    Gone before after k ∨ Replaced before after k ↔ before.contains k = true ∧ Moved before after k := by
  rw [Gone, Replaced, Moved]
  cases hb : before.contains k with
  | false => simp
  | true =>
    cases ha : after.contains k with
    | true => simp
    | false =>
      obtain ⟨n, hn⟩ := (NameMap.contains_eq_true_iff before k).1 hb
      have hm := (NameMap.contains_eq_false_iff after k).1 ha
      simp [kindAt_of_getElem? hn, kindAt_eq_none_iff.2 hm]

theorem new_or_replaced_iff :
    Gone after before k ∨ Replaced before after k ↔ after.contains k = true ∧ Moved before after k := by
  have hswap : Replaced before after k ↔ Replaced after before k := by
    rw [Replaced, Replaced, and_left_comm, ne_comm]
  rw [hswap, gone_or_replaced_iff, Moved, Moved, ne_comm]

/-- What stands above an id of a consistent index is in the index as well. -/
theorem Consistent.topmost_contains_iff (h : index.Consistent) {P : String → Prop} :
    Topmost (fun k => index.contains k = true ∧ P k) k ↔ index.contains k = true ∧ Topmost P k := by
  rw [Topmost, Topmost, and_assoc, and_congr_right_iff]
  intro hk
  obtain ⟨n, hn⟩ := (NameMap.contains_eq_true_iff index k).1 hk
  rw [and_congr_right_iff]
  intro _
  refine forall₂_congr fun a ha => ?_
  obtain ⟨r, hr, -⟩ := h.exists_mem_preorder hn (.of_mem_ancestors ha)
  have hin : index.contains a = true := (NameMap.contains_eq_true_iff index a).2 ⟨r, hr⟩
  simp [hin]

theorem moves_eq (hb : before.Consistent) (ha : after.Consistent) (k : String) :
    moves before after k =
      (if Topmost (fun k => Gone before after k ∨ Replaced before after k) k
        then [.removeNode k] else []) ++
      if Topmost (fun k => Gone after before k ∨ Replaced before after k) k
        then after[k]?.toList.map .addNode else [] := by
  simp only [gone_or_replaced_iff, new_or_replaced_iff, hb.topmost_contains_iff,
    ha.topmost_contains_iff]
  rw [moves]
  by_cases htop : Topmost (Moved before after) k
  · have hm := htop.1
    rw [Moved, kindAt, kindAt] at hm
    simp only [htop, and_true, if_true, structuralEdits, Std.ExtTreeMap.contains_eq_isSome_getElem?]
    cases hn : before[k]? with
    | none => cases ht : after[k]? <;> simp
    | some n =>
      cases ht : after[k]? with
      | none => simp
      | some m =>
        have hne : n.kind ≠ m.kind := by simpa [hn, ht] using hm
        simp [hne]
  · simp [htop]

theorem joinedParameters_self (n : Node) : n.joinedParameters n = n.childIds := by
  have hall : n.childIds.filter (· ∈ n.childIds) = n.childIds := by simp
  have hnone : n.childIds.filter (· ∉ n.childIds) = [] := by simp
  rw [Node.joinedParameters, hall, hnone, List.mergeSort_nil, List.append_nil]

/-- Between equal sides there is nothing to edit. -/
theorem difference_self (index : NodeIndex) : difference index index = [] := by
  have hmoves : ∀ k, moves index index k = [] := fun k => moves_of_not_moved fun hm => hm rfl
  have hamendments : ∀ k, amendments index index k = [] := by
    intro k
    rw [amendments]
    cases hn : index[k]? with
    | none => rfl
    | some n =>
      dsimp only
      rw [joinedParameters_self, (Node.amendment?_eq_none_iff rfl).2 ⟨rfl, fun _ => rfl⟩]
      rfl
  simp [difference, hmoves, hamendments]

end NodeIndex

namespace Snapshot

open NodeIndex (Gone Replaced)

variable {s t : Snapshot}

/-- The content of a difference, id by id: the removal and the addition for `k` if it is topmost among
the ids that go, come or change their kind, and after all of those the edit that turns the one node at
`k` into the other. The difference is empty only between equal snapshots. -/
theorem diff_content (hs : s.Reachable) (ht : t.Reachable) :
    ∃ moves amendments, s.diff t = .ok (moves ++ amendments) ∧
      (∀ k, moves.filter (fun e => e.id = k) =
        (if Id.Topmost (fun k => Gone s.index t.index k ∨ Replaced s.index t.index k) k
          then [.removeNode k] else []) ++
        if Id.Topmost (fun k => Gone t.index s.index k ∨ Replaced s.index t.index k) k
          then t.index[k]?.toList.map .addNode else []) ∧
      (∀ k, amendments.filter (fun e => e.id = k) =
        match s.index[k]?, t.index[k]? with
        | some n, some m => (n.amendment? (n.joinedParameters m) m).toList
        | _, _ => []) ∧
      (s.diff t = .ok [] ↔ s.units = t.units) := by
  have hb := hs.coherent.index
  have ha := ht.coherent.index
  obtain ⟨hdiff, hfold⟩ := NodeIndex.diff_eq hb ha
  refine ⟨_, _, hdiff, fun k => ?_, fun k => ?_, ?_⟩
  · rw [← NodeIndex.moves_eq hb ha]
    apply NodeIndex.filter_id_flatMap (fun _ _ => NodeIndex.id_of_mem_moves ha)
      (NodeIndex.nodup_unionIds _ _)
    exact fun hk => NodeIndex.moves_of_not_moved (mt NodeIndex.mem_unionIds_of_moved hk)
  · apply NodeIndex.filter_id_flatMap (fun _ _ => NodeIndex.id_of_mem_amendments hb)
      (List.nodup_mergeSort.2 Std.ExtTreeMap.nodup_keys)
    intro hk
    rw [List.mem_mergeSort, NameMap.not_mem_keys_iff] at hk
    rw [NodeIndex.amendments, hk]
    cases s.index[k]? <;> rfl
  · rw [Snapshot.diff, hdiff, Except.ok.injEq]
    constructor
    · intro hnil
      rw [hnil] at hfold
      rw [hs.coherent.ext_index ht.coherent (Except.ok.inj hfold)]
    · intro hunits
      rw [hs.coherent.index_eq_of_units_eq ht.coherent hunits, NodeIndex.difference_self]

theorem diff_content_of_replaced :
    let s := (Snapshot.empty.apply (.addNode ⟨"a", .unit, [⟨"a:x", .var ∅ [], []⟩]⟩)).state
    let t := (Snapshot.empty.apply (.addNode ⟨"a", .unit, [⟨"a:x", .type ∅ ∅, []⟩]⟩)).state
    ∃ moves amendments, s.diff t = .ok (moves ++ amendments) ∧
      moves.filter (fun e => e.id = "a:x") =
        [.removeNode "a:x", .addNode ⟨"a:x", .type ∅ ∅, []⟩] ∧
      amendments.filter (fun e => e.id = "a") = [] ∧
      (s.diff t = .ok [] ↔ s.units = t.units) := by
  intro s t
  have hs : s.Reachable := .apply .empty rfl
  have ht : t.Reachable := .apply .empty rfl
  have hparent : Id.parent? "a" = none := by decide +kernel
  have hparent' : Id.parent? "a:x" = some "a" := by decide +kernel
  have habove : Id.ancestors "a:x" = ["a"] := by
    rw [Id.ancestors_of_parent?_some hparent', Id.ancestors_of_parent?_none hparent]
  obtain ⟨moves, amendments, hdiff, hmoves, hamendments, hempty⟩ := diff_content hs ht
  refine ⟨moves, amendments, hdiff, (hmoves "a:x").trans ?_, (hamendments "a").trans ?_, hempty⟩
  · have hreplaced : Replaced s.index t.index "a:x" := by decide +kernel
    have hsame : ¬ Gone s.index t.index "a" ∧ ¬ Gone t.index s.index "a" ∧
        ¬ Replaced s.index t.index "a" := by decide +kernel
    have htarget : t.index["a:x"]? = some ⟨"a:x", .type ∅ ∅, []⟩ := by decide +kernel
    simp [Id.Topmost, habove, hreplaced, hsame, htarget]
  · have hold : s.index["a"]? = some ⟨"a", .unit, [⟨"a:x", .var ∅ [], []⟩]⟩ := by decide +kernel
    have hnew : t.index["a"]? = some ⟨"a", .unit, [⟨"a:x", .type ∅ ∅, []⟩]⟩ := by decide +kernel
    rw [hold, hnew]
    rfl

end Snapshot

end SourceHistory
