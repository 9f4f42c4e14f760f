import SourceHistory.Proofs.Snapshot.Batch

namespace SourceHistory.Snapshot

variable {s t : Snapshot} {edits : List Edit}

/-- What construction, edits and batches lead to; a failed update counts with what it leaves. -/
inductive Reachable : Snapshot → Prop where
  | empty : Reachable .empty
  | ofUnits {units : List SourceUnit} {s : Snapshot} : ofUnits units = .ok s → Reachable s
  | apply {s : Snapshot} {e : Edit} : Reachable s → e.check = .ok () → Reachable (s.apply e).state
  | applyAll {s : Snapshot} {edits : List Edit} : Reachable s → (∀ e ∈ edits, e.check = .ok ()) →
    Reachable (s.applyAll edits).state

theorem Reachable.coherent (h : s.Reachable) : s.Coherent := by
  induction h with
  | empty => exact coherent_empty
  | ofUnits hs => exact coherent_of_ofUnits hs
  | apply _ hc ih =>
    rcases ih.apply_cases hc with ⟨error, -, hfail⟩ | ⟨t, -, happly, ht⟩
    · rwa [hfail]
    · rwa [happly]
  | applyAll _ hc ih => exact ih.applyAll hc

/-- The index is that of the units, units are valid and under their paths, parents and children hold
each other, and the units determine the index. -/
theorem reachable_invariant (h : s.Reachable) :
    s.index = NodeIndex.ofUnits s.units.values ∧
    (∀ (path : String) (u : SourceUnit), s.units[path]? = some u →
      u.path = path ∧ u.validate = .ok ()) ∧
    (∀ (k : String) (n c : Node), s.index[k]? = some n → c ∈ n.children →
      s.index[c.id]? = some c) ∧
    (∀ (k : String) (n : Node), s.index[k]? = some n → n.kind ≠ .unit →
      ∃ p m, Id.parent? k = some p ∧ s.index[p]? = some m ∧ n ∈ m.children) ∧
    ∀ t : Snapshot, t.Reachable → t.units = s.units → t.index = s.index := by
  have hs := h.coherent
  refine ⟨hs.index_eq_ofUnits, hs.keyed, fun _ _ _ hn hc => hs.index.child hn hc, ?_, ?_⟩
  · intro k n hn hkind
    have hp : Id.parent? k ≠ none := fun hp => hkind (hs.index.kind_of_parent?_none hn hp)
    obtain ⟨p, hp⟩ := Option.ne_none_iff_exists'.1 hp
    obtain ⟨m, hm, hmem⟩ := hs.index.parent hn hp
    exact ⟨p, m, hp, hm, hmem⟩
  · intro t ht hu
    exact ht.coherent.index_eq_of_units_eq hs hu

theorem reachable_invariant_of_addNode :
    let s := (Snapshot.empty.apply (.addNode ⟨"a", .unit, [⟨"a:x", .var ∅ [], []⟩]⟩)).state
    s.Reachable ∧ s.index = NodeIndex.ofUnits s.units.values := by
  intro s
  have hs : s.Reachable := .apply .empty rfl
  exact ⟨hs, (reachable_invariant hs).1⟩

/-- A batch does what its edits do one after the other, or it fails with the error of the first edit
that fails and changes nothing. -/
theorem applyAll_all_or_nothing (h : s.Reachable) (hc : ∀ e ∈ edits, e.check = .ok ()) :
    (∃ t, s.replay edits = .ok t ∧ s.applyAll edits = .done t) ∨
    ∃ before e after t error, edits = before ++ e :: after ∧ s.replay before = .ok t ∧
      (t.apply e).error? = some error ∧ s.applyAll edits = .failed s error := by
  rw [h.coherent.applyAll_eq hc]
  cases hr : s.replay edits with
  | ok t => exact Or.inl ⟨t, rfl, rfl⟩
  | error error =>
    obtain ⟨before, e, after, t, he, hb, herr⟩ := exists_of_replay_eq_error hr
    exact Or.inr ⟨before, e, after, t, error, he, hb, herr, rfl⟩

theorem applyAll_all_or_nothing_of_removeNode :
    let edits := [Edit.addNode ⟨"a", .unit, []⟩, Edit.removeNode "b"]
    (∃ t, Snapshot.empty.replay edits = .ok t ∧ Snapshot.empty.applyAll edits = .done t) ∨
    ∃ before e after t error, edits = before ++ e :: after ∧
      Snapshot.empty.replay before = .ok t ∧ (t.apply e).error? = some error ∧
      Snapshot.empty.applyAll edits = .failed Snapshot.empty error := by
  intro edits
  have hc : ∀ e ∈ edits, e.check = .ok () := by
    intro e he
    rcases List.mem_cons.1 he with rfl | he
    · rfl
    · rw [List.mem_singleton.1 he]
      rfl
  exact applyAll_all_or_nothing .empty hc

end SourceHistory.Snapshot
