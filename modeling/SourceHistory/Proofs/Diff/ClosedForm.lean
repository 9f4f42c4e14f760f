import SourceHistory.Proofs.Diff.Attributes
import SourceHistory.Proofs.Diff.Structure
import SourceHistory.Proofs.Id.Grammar

namespace SourceHistory

/-- The parameters of `n` that `m` has too, then those that only `m` has. -/
def Node.joinedParameters (n m : Node) : List String :=
  n.childIds.filter (· ∈ m.childIds) ++
    (m.childIds.filter (· ∉ n.childIds)).mergeSort Id.parentsFirst

namespace NodeIndex

open SourceHistory.Id (Within)

variable {before after working : NodeIndex} {k : String} {n m : Node}
  {ids : List String} {edits : String → List Edit}

theorem mem_unionIds_iff :
    k ∈ unionIds before after ↔ (∃ n, before[k]? = some n) ∨ ∃ n, after[k]? = some n := by
  rw [unionIds, List.mem_mergeSort, List.mem_append, List.mem_filter, NameMap.mem_keys_iff,
    NameMap.mem_keys_iff, Bool.not_eq_true', NameMap.contains_eq_false_iff]
  cases before[k]? <;> simp

theorem nodup_unionIds (before after : NodeIndex) : (unionIds before after).Nodup := by
  rw [unionIds, List.nodup_mergeSort, List.nodup_append]
  refine ⟨Std.ExtTreeMap.nodup_keys, Std.ExtTreeMap.nodup_keys.filter _, ?_⟩
  rintro a ha b hb rfl
  have hnew := (List.mem_filter.1 hb).2
  rw [Bool.not_eq_true', NameMap.contains_eq_false_iff] at hnew
  obtain ⟨n, hn⟩ := (NameMap.mem_keys_iff before a).1 ha
  rw [hn] at hnew
  cases hnew

theorem pairwise_unionIds (before after : NodeIndex) :
    (unionIds before after).Pairwise (Id.KeyFirst fun id => id.utf8ByteSize) :=
  Id.pairwise_mergeSort (fun _ _ => Id.parentsFirst_iff) _

theorem unionIds_eq_of_perm {ids ids' : List String} (hb : ids.Perm before.keys)
    (ha : ids'.Perm after.keys) :
    (ids ++ ids'.filter fun id => !before.contains id).mergeSort Id.parentsFirst =
      unionIds before after :=
  Id.mergeSort_eq_of_perm (fun _ _ => Id.parentsFirst_iff) (hb.append (ha.filter _))

theorem mergeSort_keys_of_perm {ids : List String} (h : ids.Perm after.keys) :
    ids.mergeSort Id.childrenFirst = after.keys.mergeSort Id.childrenFirst :=
  Id.mergeSort_eq_of_perm (fun _ _ => Id.childrenFirst_iff) h

theorem unionIds_sorted (before after : NodeIndex) :
    (unionIds before after).Pairwise fun a b => a.utf8ByteSize ≤ b.utf8ByteSize := by
  refine (pairwise_unionIds before after).imp fun {a b} h => ?_
  rcases h with h | ⟨h, -⟩ <;> (dsimp only at h; omega)

theorem mem_unionIds_of_moved (h : Moved before after k) : k ∈ unionIds before after := by
  rw [mem_unionIds_iff]
  by_contra hnone
  rw [not_or, ← Option.ne_none_iff_exists', ← Option.ne_none_iff_exists', not_not, not_not] at hnone
  apply h
  rw [kindAt_eq_none_iff.2 hnone.1, kindAt_eq_none_iff.2 hnone.2]

/-- The attribute edit for `k` in the whole difference. -/
def amendments (before after : NodeIndex) (k : String) : List Edit :=
  match before[k]?, after[k]? with
  | some n, some m => (n.amendment? (n.joinedParameters m) m).toList
  | _, _ => []

theorem visitedParameters_unionIds (hb : before.Consistent) (ha : after.Consistent)
    (hn : before[k]? = some n) (hm : after[k]? = some m) :
    visitedParameters before after (unionIds before after) k n = n.joinedParameters m := by
  have hkept : ∀ c ∈ n.childIds,
      (c ∉ unionIds before after ∨ after.contains c = true) ↔ c ∈ m.childIds := by
    intro c hc
    obtain ⟨hp, hex⟩ := (hb.mem_childIds_iff hn).1 hc
    rw [ha.mem_childIds_iff hm, NameMap.contains_eq_true_iff, mem_unionIds_iff]
    simp [hp, hex]
  have hadded : (unionIds before after).filter (fun c => Id.parent? c = some k ∧
      before.contains c = false ∧ after.contains c = true) =
      (m.childIds.filter (· ∉ n.childIds)).mergeSort Id.parentsFirst := by
    apply Id.eq_of_keyFirst ((pairwise_unionIds before after).filter _)
      (Id.pairwise_mergeSort (fun _ _ => Id.parentsFirst_iff) _)
      ((nodup_unionIds before after).filter _)
    · exact List.nodup_mergeSort.2 ((ha.wellFormed hm).nodup.filter _)
    · intro c
      rw [List.mem_filter, List.mem_mergeSort, List.mem_filter, decide_eq_true_eq, decide_eq_true_eq,
        ha.mem_childIds_iff hm, hb.mem_childIds_iff hn, mem_unionIds_iff,
        NameMap.contains_eq_false_iff, NameMap.contains_eq_true_iff]
      constructor
      · intro hand
        obtain ⟨-, hp, hold, hnew⟩ := hand
        exact ⟨⟨hp, hnew⟩, fun hin => by simp [hold] at hin⟩
      · intro hand
        obtain ⟨⟨hp, hnew⟩, hout⟩ := hand
        refine ⟨Or.inr hnew, hp, ?_, hnew⟩
        rw [Option.eq_none_iff_forall_ne_some]
        exact fun n hn => hout ⟨hp, n, hn⟩
  rw [visitedParameters, hadded, List.filter_congr fun c hc => decide_eq_decide.2 (hkept c hc)]
  rfl

/-- Nothing that both sides have lies below an id that moved. -/
theorem not_moved_of_within (hb : before.Consistent) (ha : after.Consistent)
    (hn : before[k]? = some n) (hm : after[k]? = some m) (hkind : n.kind = m.kind) {r : String}
    (hw : Within k r) : ¬ Moved before after r := by
  intro hr
  obtain ⟨d, hd, hnd⟩ := hb.exists_mem_preorder hn hw
  obtain ⟨d', hd', hmd⟩ := ha.exists_mem_preorder hm hw
  have hne : d.kind ≠ d'.kind := by
    intro he
    rw [Moved, kindAt_of_getElem? hd, kindAt_of_getElem? hd', he] at hr
    exact hr rfl
  -- One of the two holds no children, so that `k` is `r` itself.
  have hkr : k = r := by
    have hvalid := (hb.wellFormed hd).id_valid
    have hvalid' := (ha.wellFormed hd').id_valid
    rw [hb.id_eq hd] at hvalid
    rw [ha.id_eq hd'] at hvalid'
    rcases Kind.eq_var_or_of_isValidId hvalid hvalid' hne with hvar | hvar
    · rw [← hb.id_eq hn, (hb.wellFormed hd).eq_of_mem_preorder_var hvar hnd, hb.id_eq hd]
    · rw [← ha.id_eq hm, (ha.wellFormed hd').eq_of_mem_preorder_var hvar hmd, ha.id_eq hd']
  rw [← hkr] at hr
  rw [Moved, kindAt_of_getElem? hn, kindAt_of_getElem? hm, hkind] at hr
  exact hr rfl

theorem attributeEdits_self (ha : after.Consistent) (k : String) :
    attributeEdits after after k = .ok [] := by
  cases hm : after[k]? with
  | none => rw [attributeEdits, hm]
  | some m =>
    rw [attributeEdits_eq ha ha hm hm rfl, (Node.amendment?_eq_none_iff rfl).2 ⟨rfl, fun _ => rfl⟩]
    rfl

/-- After the first pass a node that did not move keeps its attributes, and a function has the
parameters of both sides. -/
theorem Arranged.exists_of_not_touched (h : Arranged before after (unionIds before after) working)
    (hb : before.Consistent) (ha : after.Consistent)
    (hk : ¬ Touched before after (unionIds before after) k) (hn : before[k]? = some n)
    (hm : after[k]? = some m) :
    ∃ current, working[k]? = some current ∧ current.id = n.id ∧
      current.attributes = n.attributes ∧
      (n.kind = .function → current.childIds = n.joinedParameters m) := by
  have hattr := h.attributes k hk
  rw [label_of_getElem? hn, Option.map_some, Option.map_eq_some_iff] at hattr
  obtain ⟨⟨a, ids⟩, hl, rfl⟩ := hattr
  obtain ⟨current, hc, hca, -⟩ := label_eq_some_iff.1 hl
  refine ⟨current, hc, (h.consistent.id_eq hc).trans (hb.id_eq hn).symm, hca, fun hf => ?_⟩
  have hp := h.parameters k n hk hn hf
  rw [label_of_getElem? hc, visitedParameters_unionIds hb ha hn hm, Option.some.injEq,
    Prod.mk.injEq] at hp
  exact hp.2

/-- The edits of the second pass are those of the two sides, not of the working copy. -/
theorem attributeEdits_of_arranged (hb : before.Consistent) (ha : after.Consistent)
    (h : Arranged before after (unionIds before after) working) (k : String) :
    attributeEdits working after k = .ok (amendments before after k) := by
  have hkind : working.kindAt k = after.kindAt k := h.kindAt_eq mem_unionIds_of_moved
  by_cases ht : Touched before after (unionIds before after) k
  · rw [attributeEdits_congr ha h.consistent (h.inside k ht), attributeEdits_self ha]
    obtain ⟨r, -, hr, hw⟩ := ht
    rw [amendments]
    split
    · next n m hn hm =>
      cases he : n.amendment? (n.joinedParameters m) m with
      | none => rfl
      | some e => exact absurd hr (not_moved_of_within hb ha hn hm (Node.kind_eq_of_amendment? he) hw)
    · rfl
  · rw [h.kindAt_of_not_touched ht] at hkind
    cases hn : before[k]? with
    | none =>
      have hnone : working[k]? = none := by
        rw [← kindAt_eq_none_iff, h.kindAt_of_not_touched ht, kindAt_eq_none_iff, hn]
      rw [attributeEdits, amendments, hn, hnone]
    | some n =>
      rw [kindAt_of_getElem? hn] at hkind
      obtain ⟨m, hm, hmk⟩ := kindAt_eq_some_iff.1 hkind.symm
      obtain ⟨current, hc, hid, hattr, hparams⟩ := h.exists_of_not_touched hb ha ht hn hm
      have hck : current.kind = m.kind := by rw [Node.kind, hattr, ← Node.kind, hmk]
      rw [attributeEdits_eq h.consistent ha hc hm hck, amendments, hn, hm,
        Node.amendment?_congr hid hattr]
      by_cases hf : n.kind = .function
      · rw [hparams hf]
      · rw [Node.amendment?_of_kind_ne hf]

/-- What the difference of consistent indexes consists of, read off the two sides. The working copy
differs from both while the edits are found, but never where it is looked at. -/
def difference (before after : NodeIndex) : List Edit :=
  (unionIds before after).flatMap (moves before after) ++
    (after.keys.mergeSort Id.childrenFirst).flatMap (amendments before after)

theorem diff_eq (hb : before.Consistent) (ha : after.Consistent) :
    diff before after = .ok (difference before after) ∧
      (difference before after).foldlM advance before = .ok after := by
  obtain ⟨working, hpass, hmoves, h⟩ := exists_structuralPass hb ha (nodup_unionIds before after)
    (unionIds_sorted before after) fun _ => mem_unionIds_of_moved
  have hkinds : ∀ k, working.kindAt k = after.kindAt k := fun k => h.kindAt_eq mem_unionIds_of_moved
  have hrest : ∀ k, k ∉ after.keys.mergeSort Id.childrenFirst → working.label k = after.label k := by
    intro k hk
    rw [List.mem_mergeSort, NameMap.not_mem_keys_iff] at hk
    have hw : working[k]? = none := by
      rw [← kindAt_eq_none_iff, hkinds, kindAt_eq_none_iff, hk]
    rw [label, label, hk, hw]
  have hnd : (after.keys.mergeSort Id.childrenFirst).Nodup :=
    List.nodup_mergeSort.2 Std.ExtTreeMap.nodup_keys
  obtain ⟨hpass', hamendments⟩ := exists_attributePass h.consistent ha hkinds hrest hnd
    fun k _ => attributeEdits_of_arranged hb ha h k
  refine ⟨?_, (foldlM_append_of_ok hmoves).trans hamendments⟩
  simp only [diff, hpass, hpass', bind, Except.bind]
  rfl

theorem id_of_mem_moves (ha : after.Consistent) {e : Edit} (he : e ∈ moves before after k) :
    e.id = k := by
  rw [moves] at he
  split at he
  · exact id_of_mem_structuralEdits ha he
  · cases he

theorem id_of_mem_amendments (hb : before.Consistent) {e : Edit}
    (he : e ∈ amendments before after k) : e.id = k := by
  rw [amendments] at he
  split at he
  · next n m hn hm =>
    rw [Node.id_of_amendment? (Option.mem_toList.1 he), hb.id_eq hn]
  · cases he

theorem filter_flatMap_of_id (hid : ∀ k, ∀ e ∈ edits k, e.id = k) (p : String → Bool) :
    (ids.flatMap edits).filter (fun e => p e.id) = (ids.filter p).flatMap edits := by
  induction ids with
  | nil => rfl
  | cons x ids ih =>
    rw [List.flatMap_cons, List.filter_append, ih]
    cases hp : p x with
    | true =>
      have hall : (edits x).filter (fun e => p e.id) = edits x := by
        rw [List.filter_eq_self]
        intro e he
        rw [hid x e he, hp]
      rw [hall, List.filter_cons_of_pos hp, List.flatMap_cons]
    | false =>
      have hnone : (edits x).filter (fun e => p e.id) = [] := by
        rw [List.filter_eq_nil_iff]
        intro e he
        simp [hid x e he, hp]
      rw [hnone, List.filter_cons_of_neg (by simp [hp]), List.nil_append]

theorem filter_id_flatMap (hid : ∀ k, ∀ e ∈ edits k, e.id = k) (hnd : ids.Nodup)
    (hout : k ∉ ids → edits k = []) : (ids.flatMap edits).filter (fun e => e.id = k) = edits k := by
  rw [filter_flatMap_of_id hid (fun x => x = k), List.filter_eq]
  by_cases hk : k ∈ ids
  · rw [List.count_eq_one_of_mem hnd hk]
    simp
  · rw [List.count_eq_zero_of_not_mem hk, hout hk]
    rfl

end NodeIndex

end SourceHistory
