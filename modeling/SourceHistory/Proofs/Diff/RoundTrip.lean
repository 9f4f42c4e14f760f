import SourceHistory.Proofs.Diff.ClosedForm
import SourceHistory.Proofs.Snapshot.Reachable

namespace SourceHistory

namespace NodeIndex

variable {before after index result : NodeIndex} {edits : List Edit}

/-- On consistent indexes a difference exists and leads from one to the other. -/
theorem exists_diff (hb : before.Consistent) (ha : after.Consistent) :
    ∃ edits, diff before after = .ok edits ∧ edits.foldlM advance before = .ok after ∧
      ∀ e ∈ edits, (∃ n, before[e.id]? = some n) ∨ ∃ n, after[e.id]? = some n := by
  obtain ⟨hdiff, hfold⟩ := diff_eq hb ha
  refine ⟨difference before after, hdiff, hfold, fun e he => ?_⟩
  rcases List.mem_append.1 he with he | he
  · obtain ⟨k, hk, he⟩ := List.mem_flatMap.1 he
    rw [id_of_mem_moves ha he]
    exact mem_unionIds_iff.1 hk
  · obtain ⟨k, hk, he⟩ := List.mem_flatMap.1 he
    rw [List.mem_mergeSort, NameMap.mem_keys_iff] at hk
    rw [id_of_mem_amendments hb he]
    exact Or.inr hk

theorem check_of_foldlM_advance (h : edits.foldlM advance index = .ok result) :
    ∀ e ∈ edits, e.check = .ok () := by
  induction edits generalizing index with
  | nil => nofun
  | cons e edits ih =>
    rw [List.foldlM_cons] at h
    obtain ⟨middle, hadv, hrest⟩ := bind_eq_ok_iff.1 h
    exact List.forall_mem_cons.2 ⟨(check_bind_eq_ok_iff.1 hadv).1, ih hrest⟩

end NodeIndex

namespace Snapshot

variable {s t : Snapshot} {e : Edit} {edits : List Edit}

/-- A coherent snapshot follows its index. -/
theorem Coherent.exists_apply_of_advance (h : s.Coherent) {result : NodeIndex}
    (hadv : NodeIndex.advance s.index e = .ok result) :
    ∃ t, s.apply e = .done t ∧ t.Coherent ∧ t.index = result := by
  obtain ⟨hc, hadv⟩ := check_bind_eq_ok_iff.1 hadv
  rcases h.apply_cases hc with ⟨error, hfail, -⟩ | ⟨t, hdone, happly, ht⟩
  · rw [hfail] at hadv
    cases hadv
  · rw [hdone] at hadv
    exact ⟨t, happly, ht, Except.ok.inj hadv⟩

theorem Coherent.replay_of_advance (h : s.Coherent) (ht : t.Coherent)
    (hfold : edits.foldlM NodeIndex.advance s.index = .ok t.index) : s.replay edits = .ok t := by
  induction edits generalizing s with
  | nil =>
    rw [h.ext_index ht (Except.ok.inj hfold)]
    rfl
  | cons e edits ih =>
    rw [List.foldlM_cons] at hfold
    obtain ⟨middle, hadv, hrest⟩ := bind_eq_ok_iff.1 hfold
    obtain ⟨s', happly, hs', rfl⟩ := h.exists_apply_of_advance hadv
    rw [replay_cons_of_done happly]
    exact ih hs' hrest

theorem Coherent.applyAll_of_advance (h : s.Coherent) (ht : t.Coherent)
    (hfold : edits.foldlM NodeIndex.advance s.index = .ok t.index) : s.applyAll edits = .done t := by
  rw [h.applyAll_eq (NodeIndex.check_of_foldlM_advance hfold), h.replay_of_advance ht hfold]

/-- The difference of two snapshots exists, and applying it to the first gives the second, units and
index alike. -/
theorem applyAll_diff (hs : s.Reachable) (ht : t.Reachable) :
    ∃ edits, s.diff t = .ok edits ∧ s.applyAll edits = .done t := by
  obtain ⟨edits, hdiff, hfold, -⟩ := NodeIndex.exists_diff hs.coherent.index ht.coherent.index
  exact ⟨edits, hdiff, hs.coherent.applyAll_of_advance ht.coherent hfold⟩

theorem applyAll_diff_of_addNode :
    let s := (Snapshot.empty.apply (.addNode ⟨"a", .unit, [⟨"a:x", .var ∅ [], []⟩]⟩)).state
    let t := (Snapshot.empty.apply (.addNode ⟨"a", .unit, [⟨"a:x", .type ∅ ∅, []⟩]⟩)).state
    ∃ edits, s.diff t = .ok edits ∧ s.applyAll edits = .done t := by
  intro s t
  have hs : s.Reachable := .apply .empty rfl
  have ht : t.Reachable := .apply .empty rfl
  exact applyAll_diff hs ht

end Snapshot

end SourceHistory
