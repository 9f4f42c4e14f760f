import SourceHistory.Proofs.Diff.RoundTrip

namespace SourceHistory

open SourceHistory.Id (Within)

namespace NodeIndex.Transplants

variable {index result : NodeIndex} {x k p : String} {n m : Node}

/-- The labels stay, but for the order of parameters above a parameter. -/
theorem label_eq (ht : Transplants index index result x) (h : index.Consistent)
    (hk : ∀ m, Id.parent? x = some k → index[k]? = some m → m.kind = .function → index[x]? = none) :
    result.label k = index.label k := by
  by_cases hp : Id.parent? x = some k
  · obtain ⟨m, ids, hm, hl, hids⟩ := ht.parent k hp
    obtain ⟨m', hm', hattr, rfl⟩ := label_eq_some_iff.1 hl
    have hkind : m'.kind = m.kind := by rw [Node.kind, hattr, ← Node.kind]
    have hsame : m'.childIds = m.childIds := by
      by_cases hf : m.kind = .function
      · have hnone := hk m hp hm hf
        have hx : x ∉ m.childIds := by
          intro hmem
          obtain ⟨-, a, ha⟩ := (h.mem_childIds_iff hm).1 hmem
          rw [hnone] at ha
          cases ha
        have hkeep : m.childIds.filter (· ≠ x) = m.childIds := by
          rw [List.filter_eq_self]
          intro c hc
          exact decide_eq_true fun he => hx (he ▸ hc)
        rw [hids hf, hkeep]
        simp [(NameMap.contains_eq_false_iff index x).2 hnone]
      · have hkinds : ∀ j, result.kindAt j = index.kindAt j := by
          intro j
          rw [ht.kindAt_eq, ite_self]
        exact ht.consistent.childIds_eq h (exists_getElem?_iff hkinds) hm' hm hkind (hkind ▸ hf)
    rw [hl, hsame, label_of_getElem? hm]
  · by_cases hw : Within k x
    · exact ht.inside k hw
    · exact ht.outside k hw hp

theorem eq_self (ht : Transplants index index result x) (h : index.Consistent)
    (hx : ∀ p m, Id.parent? x = some p → index[p]? = some m → m.kind = .function →
      index[x]? = none) : result = index :=
  ht.consistent.ext_label h fun k => ht.label_eq h (hx k)

theorem label_eq_of_ne_parent (ht : Transplants index index result x) (h : index.Consistent)
    (hp : Id.parent? x = some p) (hk : k ≠ p) : result.label k = index.label k := by
  refine ht.label_eq h fun m hpk => ?_
  exact absurd (Option.some.inj (hpk.symm.trans hp)) hk

theorem getElem?_of_not_above (ht : Transplants index index result x) (h : index.Consistent)
    (hp : Id.parent? x = some p) (hk : ¬ Within p k) : result[k]? = index[k]? := by
  refine ht.consistent.getElem?_eq_of_label_eq h fun j hj => ?_
  exact ht.label_eq_of_ne_parent h hp fun he => hk (he ▸ hj)

/-- A parameter comes back as the last one; the others keep their order. -/
theorem getElem?_function (ht : Transplants index index result x) (h : index.Consistent)
    (hx : index[x]? = some n) (hp : Id.parent? x = some p) (hm : index[p]? = some m)
    (hf : m.kind = .function) :
    result[p]? = some { m with children := m.children.filter (fun c => c.id ≠ x) ++ [n] } := by
  obtain ⟨m₀, ids, hm₀, hl, hids⟩ := ht.parent p hp
  obtain rfl : m₀ = m := Option.some.inj (hm₀.symm.trans hm)
  obtain ⟨m', hm', hattr, rfl⟩ := label_eq_some_iff.1 hl
  have hcurrent : ∀ {c a : Node}, Id.parent? c.id = some p → index[c.id]? = some a →
      result[c.id]? = some a := by
    intro c a hc ha
    rw [ht.getElem?_of_not_above h hp (Id.not_within_of_parent? hc), ha]
  have hid : n.id = x := h.id_eq hx
  have hchildren : m'.children = m₀.children.filter (fun c => c.id ≠ x) ++ [n] := by
    refine eq_of_map_id_eq (fun c hc => ht.consistent.child hm' hc) (fun c hc => ?_) ?_
    · rcases List.mem_append.1 hc with hc | hc
      · have hmem := (List.mem_filter.1 hc).1
        exact hcurrent (h.id_eq hm ▸ (h.wellFormed hm).direct c hmem) (h.child hm hmem)
      · rw [List.mem_singleton.1 hc]
        exact hcurrent (hid ▸ hp) (hid ▸ hx)
    · have hlast : [x].filter (index.contains ·) = [x] := by
        simp [(NameMap.contains_eq_true_iff index x).2 ⟨n, hx⟩]
      change m'.childIds = _
      rw [hids hf, hlast, List.map_append, List.map_singleton, hid, Node.childIds, List.filter_map]
      rfl
  have hpid : m'.id = m₀.id := (ht.consistent.id_eq hm').trans (h.id_eq hm).symm
  rw [hm', Option.some.injEq]
  exact Node.ext hpid hattr hchildren

end NodeIndex.Transplants

namespace Snapshot

variable {s t : Snapshot} {n : Node} {x p : String}

theorem Coherent.transplants_of_addNode (h : s.Coherent) (hc : (Edit.addNode n).check = .ok ())
    (happly : s.apply (.addNode n) = .done t) :
    t.Coherent ∧ s.index[n.id]? = none ∧ t.index[n.id]? = some n ∧
      ∃ other, NodeIndex.Transplants s.index other t.index n.id := by
  obtain ⟨staged, hs, hre, happlyTo, ht⟩ := h.exists_stage_of_apply_eq_done hc happly
  obtain ⟨result, hadv, hcons, hgap, hl⟩ := NodeIndex.exists_advance_of_stage h.index hc hs
  obtain rfl : t.index = result := by
    obtain ⟨-, hadv⟩ := check_bind_eq_ok_iff.1 hadv
    rw [happlyTo] at hadv
    exact Except.ok.inj hadv
  obtain ⟨hfresh, -, rfl⟩ := Edit.stage_addNode_eq_ok_iff.1 hs
  refine ⟨ht, hfresh, ?_, NodeIndex.insertSubtree s.index n,
    .of_stage h.index hgap hcons hl (fun k => ?_) (Or.inr hfresh)⟩
  · have hself := NodeIndex.getElem?_of_rebuildAncestors_eq_done hre
    exact hself.trans (NodeIndex.getElem?_insertSubtree_of_mem hc (Node.self_mem_preorder n))
  · split
    · rfl
    · next hw => exact NodeIndex.getElem?_insertSubtree_of_not_within hc hw

theorem Coherent.remove_added (h : s.Coherent) (hc : (Edit.addNode n).check = .ok ())
    (happly : s.apply (.addNode n) = .done t) :
    (Edit.removeNode n.id).check = .ok () ∧ t.apply (.removeNode n.id) = .done s := by
  obtain ⟨ht, hfresh, hn, other, hadded⟩ := h.transplants_of_addNode hc happly
  obtain ⟨result, hadv, hremoved⟩ := NodeIndex.exists_advance_removeNode ht.index hn
  have hself := (hadded.trans hremoved).of_empty h.index hfresh
  have hindex : result = s.index := hself.eq_self h.index fun _ _ _ _ _ => hfresh
  obtain ⟨u, hdone, hu, rfl⟩ := ht.exists_apply_of_advance hadv
  exact ⟨(check_bind_eq_ok_iff.1 hadv).1, by rw [hdone, hu.ext_index h hindex]⟩

theorem Coherent.exists_add_removed (h : s.Coherent) (hx : s.index[x]? = some n) :
    (Edit.removeNode x).check = .ok () ∧ (Edit.addNode n).check = .ok () ∧
    ∃ without again, s.apply (.removeNode x) = .done without ∧
      without.apply (.addNode n) = .done again ∧ again.Coherent ∧
      NodeIndex.Transplants s.index s.index again.index x := by
  obtain ⟨middle, result, hadv, hadv', hself⟩ :=
    NodeIndex.exists_advance_exchange h.index h.index hx hx fun p m _ hm =>
      NodeIndex.kindAt_of_getElem? hm
  obtain ⟨without, hremove, hwithout, rfl⟩ := h.exists_apply_of_advance hadv
  obtain ⟨again, hadd, hagain, rfl⟩ := hwithout.exists_apply_of_advance hadv'
  exact ⟨(check_bind_eq_ok_iff.1 hadv).1, (check_bind_eq_ok_iff.1 hadv').1,
    without, again, hremove, hadd, hagain, hself⟩

theorem Coherent.units_eq_of_transplants (h : s.Coherent) (ht : t.Coherent)
    (hself : NodeIndex.Transplants s.index s.index t.index x) (hp : Id.parent? x = some p)
    {path : String} (hpath : path ≠ Id.sourcePath x) : t.units[path]? = s.units[path]? := by
  rw [ht.units, h.units]
  refine ht.index.unit_congr h.index fun hnone => hself.getElem?_of_not_above h.index hp fun hw => ?_
  apply hpath
  rw [Id.sourcePath_of_parent?_some hp, hw.sourcePath_eq, Id.sourcePath_of_parent?_none hnone]

/-- A removal takes back what an addition brought, and the snapshot is as before. An addition brings
back what a removal took: the snapshot is as before, but that a parameter is then the last one of its
function. Apart from that order all stays, at the function, elsewhere and above it. -/
theorem addition_and_removal_undo (h : s.Reachable) :
    (∀ n t, (Edit.addNode n).check = .ok () → s.apply (.addNode n) = .done t →
      (Edit.removeNode n.id).check = .ok () ∧ t.apply (.removeNode n.id) = .done s) ∧
    ∀ x n, s.index[x]? = some n →
      (Edit.removeNode x).check = .ok () ∧ (Edit.addNode n).check = .ok () ∧
      ∃ without again, s.apply (.removeNode x) = .done without ∧
        without.apply (.addNode n) = .done again ∧
        ((∀ p m, Id.parent? x = some p → s.index[p]? = some m → m.kind ≠ .function) → again = s) ∧
        ∀ p m, Id.parent? x = some p → s.index[p]? = some m → m.kind = .function →
          again.index[p]? =
            some { m with children := m.children.filter (fun c => c.id ≠ x) ++ [n] } ∧
          (∀ k, ¬ Within p k → again.index[k]? = s.index[k]?) ∧
          (∀ k, k ≠ p → again.index.label k = s.index.label k) ∧
          ∀ path, path ≠ Id.sourcePath x → again.units[path]? = s.units[path]? := by
  have hs := h.coherent
  refine ⟨fun n t hc happly => hs.remove_added hc happly, fun x n hx => ?_⟩
  obtain ⟨hc, hc', without, again, hremove, hadd, hagain, hself⟩ := hs.exists_add_removed hx
  refine ⟨hc, hc', without, again, hremove, hadd, fun hmember => ?_, fun p m hp hm hf => ?_⟩
  · apply hagain.ext_index hs
    exact hself.eq_self hs.index fun p m hp hm hf => absurd hf (hmember p m hp hm)
  · exact ⟨hself.getElem?_function hs.index hx hp hm hf,
      fun k hk => hself.getElem?_of_not_above hs.index hp hk,
      fun k hk => hself.label_eq_of_ne_parent hs.index hp hk,
      fun path hpath => hs.units_eq_of_transplants hagain hself hp hpath⟩

/-- The first of two parameters goes and comes back as the second; an added variable goes without a
trace. -/
theorem addition_and_removal_undo_of_parameter :
    let a : Node := ⟨"a:f():x", .var ∅ ["1"], []⟩
    let b : Node := ⟨"a:f():y", .var ∅ [], []⟩
    let s := (Snapshot.empty.apply (.addNode
      ⟨"a", .unit, [⟨"a:f()", .function ∅ ["return"], [a, b]⟩]⟩)).state
    (∃ without again, s.apply (.removeNode "a:f():x") = .done without ∧
      without.apply (.addNode a) = .done again ∧
      again.index["a:f()"]? = some ⟨"a:f()", .function ∅ ["return"], [b, a]⟩) ∧
    ∃ t, s.apply (.addNode ⟨"a:z", .var ∅ [], []⟩) = .done t ∧
      t.apply (.removeNode "a:z") = .done s := by
  intro a b s
  have hs : s.Reachable := .apply .empty (by decide +kernel)
  have hx : s.index["a:f():x"]? = some a := by decide +kernel
  have hp : Id.parent? "a:f():x" = some "a:f()" := by decide +kernel
  have hf : s.index["a:f()"]? = some ⟨"a:f()", .function ∅ ["return"], [a, b]⟩ := by decide +kernel
  have hc : (Edit.addNode ⟨"a:z", .var ∅ [], []⟩).check = .ok () := by decide +kernel
  have hadded : (s.apply (.addNode ⟨"a:z", .var ∅ [], []⟩)).succeeded = true := by decide +kernel
  obtain ⟨hundo, hredo⟩ := addition_and_removal_undo hs
  obtain ⟨-, -, without, again, hremove, hadd, -, hparameter⟩ := hredo _ _ hx
  refine ⟨⟨without, again, hremove, hadd, (hparameter _ _ hp hf rfl).1⟩, ?_⟩
  have hdone := Attempt.eq_done_of_succeeded hadded
  exact ⟨_, hdone, (hundo _ _ hc hdone).2⟩

end Snapshot

end SourceHistory
