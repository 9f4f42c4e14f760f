import SourceHistory.Proofs.ListEdit.Table

namespace SourceHistory.ListEdit

variable {α : Type} {list list' src dst common : List α} {e : ListEdit α} {edits : List (ListEdit α)}

/-- `common` is a common subsequence of both lists, and none is longer. -/
structure LongestCommon (src dst common : List α) : Prop where
  left : common.Sublist src
  right : common.Sublist dst
  longest : ∀ other : List α, other.Sublist src → other.Sublist dst → other.length ≤ common.length

/-- With one element of its list a subsequence loses at most one of its own. -/
theorem exists_sublist_eraseIdx (h : common.Sublist list) (i : Nat) :
    ∃ kept : List α, kept.Sublist (list.eraseIdx i) ∧ kept.Sublist common ∧
      common.length ≤ kept.length + 1 := by
  induction h generalizing i with
  | slnil => exact ⟨[], by simp, by simp, by simp⟩
  | @cons common list x h ih =>
    cases i with
    | zero => exact ⟨common, h, .refl common, Nat.le_succ _⟩
    | succ i =>
      obtain ⟨kept, hl, hc, hlen⟩ := ih i
      exact ⟨kept, hl.cons x, hc, hlen⟩
  | @cons_cons common list x h ih =>
    cases i with
    | zero => exact ⟨common, h, List.sublist_cons_self x common, Nat.le_refl _⟩
    | succ i =>
      obtain ⟨kept, hl, hc, hlen⟩ := ih i
      exact ⟨x :: kept, hl.cons_cons x, hc.cons_cons x, Nat.succ_le_succ hlen⟩

/-- One insertion or removal: a subsequence of the new list loses an element in the old one only if
the old list is the shorter one. -/
theorem exists_sublist_of_applyTo
    (he : (∃ index value, e = .add index value) ∨ ∃ index, e = .remove index)
    (hstep : applyTo list e = .ok list') (hc : common.Sublist list') :
    ∃ kept : List α, kept.Sublist list ∧ kept.Sublist common ∧
      list.length + 2 * common.length ≤ list'.length + 2 * kept.length + 1 := by
  rcases he with ⟨index, value, rfl⟩ | ⟨index, rfl⟩
  · rw [applyTo] at hstep
    split at hstep
    · next hle =>
      obtain rfl := Except.ok.inj hstep
      obtain ⟨kept, hkept, hsub, hlen⟩ := exists_sublist_eraseIdx hc index
      rw [List.eraseIdx_insertIdx_self] at hkept
      refine ⟨kept, hkept, hsub, ?_⟩
      rw [List.length_insertIdx_of_le_length hle]
      omega
    · cases hstep
  · rw [applyTo] at hstep
    split at hstep
    · next hlt =>
      obtain rfl := Except.ok.inj hstep
      have hlen := List.length_eraseIdx_of_lt hlt
      exact ⟨common, hc.trans (List.eraseIdx_sublist _ _), .refl common, by omega⟩
    · cases hstep

/-- A script of insertions and removals moves at least what some common subsequence leaves. -/
theorem exists_common_of_apply
    (he : ∀ e ∈ edits, (∃ index value, e = .add index value) ∨ ∃ index, e = .remove index)
    (h : apply src edits = .ok dst) :
    ∃ common : List α, common.Sublist src ∧ common.Sublist dst ∧
      src.length + dst.length ≤ edits.length + 2 * common.length := by
  induction edits generalizing src with
  | nil =>
    obtain rfl := Except.ok.inj h
    exact ⟨src, .refl src, .refl src, by omega⟩
  | cons e edits ih =>
    obtain ⟨hnow, he⟩ := List.forall_mem_cons.1 he
    rw [apply, List.foldlM_cons] at h
    obtain ⟨middle, hstep, hrest⟩ := bind_eq_ok_iff.1 h
    obtain ⟨common, hm, hd, hlen⟩ := ih he hrest
    obtain ⟨kept, hs, hc, hkept⟩ := exists_sublist_of_applyTo hnow hstep hm
    refine ⟨kept, hs, hc.trans hd, ?_⟩
    rw [List.length_cons]
    omega

variable [DecidableEq α]

theorem length_edits_script (source target : List α) :
    (script source target).edits.length = (script source target).cost := by
  fun_induction script source target with
  | case1 => rfl
  | case2 y ys ih => rw [Script.cons, List.length_cons, ih]
  | case3 x xs ih => rw [Script.cons, List.length_cons, ih]
  | case4 x xs y ys hr hk hi =>
    rw [Script.best]
    split
    · exact hk
    · split
      · rw [Script.cons, List.length_cons, hr]
      · rw [Script.cons, List.length_cons, hi]

/-- No common subsequence covers more than the script leaves in place. -/
theorem cost_script_add_le {source target : List α} (hs : common.Sublist source)
    (ht : common.Sublist target) :
    (script source target).cost + 2 * common.length ≤ source.length + target.length := by
  fun_induction script source target generalizing common with
  | case1 =>
    obtain rfl := List.sublist_nil.1 hs
    exact Nat.le_refl _
  | case2 y ys ih =>
    obtain rfl := List.sublist_nil.1 hs
    have hrest := ih (.refl []) (List.nil_sublist ys)
    simp only [Script.cons, List.length_cons] at hrest ⊢
    omega
  | case3 x xs ih =>
    obtain rfl := List.sublist_nil.1 ht
    have hrest := ih (List.nil_sublist xs) (.refl [])
    simp only [Script.cons, List.length_cons] at hrest ⊢
    omega
  | case4 x xs y ys hr hk hi =>
    by_cases hxy : x = y
    · -- Without the shared first element a common subsequence is at most one element shorter.
      have hrest := hk hs.tail ht.tail
      rw [Script.best, if_pos hxy]
      simp only [List.length_tail, List.length_cons] at hrest ⊢
      omega
    · -- It cannot start with both first elements, so it lies in the rest of one of the lists.
      rw [Script.cost_best _ hxy]
      rcases List.sublist_cons_iff.1 hs with hs' | ⟨rest, rfl, -⟩
      · have hrest := hr hs' ht
        simp only [List.length_cons] at hrest ⊢
        omega
      · have ht' : (x :: rest).Sublist ys := by
          rcases List.sublist_cons_iff.1 ht with ht' | ⟨_, he, -⟩
          · exact ht'
          · exact absurd (List.cons.inj he).1 hxy
        have hrest := hi hs ht'
        simp only [List.length_cons] at hrest ⊢
        omega

theorem length_diff_add_le (hs : common.Sublist src) (ht : common.Sublist dst) :
    (diff src dst).length + 2 * common.length ≤ src.length + dst.length := by
  rw [diff_eq_script, length_edits_script]
  simpa using cost_script_add_le (List.reverse_sublist.2 hs) (List.reverse_sublist.2 ht)

theorem add_or_remove_of_mem_diff (he : e ∈ diff src dst) :
    (∃ index value, e = .add index value) ∨ ∃ index, e = .remove index := by
  rw [diff_eq_script] at he
  exact (goesBack_script src.reverse dst.reverse).add_or_remove he

/-- No insertions and removals lead from one list to another in fewer edits than the difference. Its
length is that of both lists less twice that of a longest common subsequence. -/
theorem diff_shortest (src dst : List α) :
    (∀ edits : List (ListEdit α),
      (∀ e ∈ edits, (∃ index value, e = .add index value) ∨ ∃ index, e = .remove index) →
      apply src edits = .ok dst → (diff src dst).length ≤ edits.length) ∧
    ∃ common, LongestCommon src dst common ∧
      (diff src dst).length + 2 * common.length = src.length + dst.length := by
  constructor
  · intro edits he h
    obtain ⟨common, hs, ht, hlen⟩ := exists_common_of_apply he h
    have hle := length_diff_add_le hs ht
    omega
  · obtain ⟨common, hs, ht, hlen⟩ :=
      exists_common_of_apply (fun e he => add_or_remove_of_mem_diff he) (apply_diff src dst)
    have hle := length_diff_add_le hs ht
    refine ⟨common, ⟨hs, ht, fun other hs' ht' => ?_⟩, by omega⟩
    have hother := length_diff_add_le hs' ht'
    omega

/-- A competing script that inserts an element and takes it out again. -/
theorem diff_shortest_of_detour :
    let edits : List (ListEdit Nat) := [.add 1 9, .remove 0, .remove 0, .add 1 4]
    apply [1, 2, 3] edits = .ok [2, 4, 3] ∧ (diff [1, 2, 3] [2, 4, 3]).length ≤ edits.length := by
  intro edits
  have happly : apply [1, 2, 3] edits = .ok [2, 4, 3] := rfl
  exact ⟨happly, (diff_shortest [1, 2, 3] [2, 4, 3]).1 edits (by simp [edits]) happly⟩

end SourceHistory.ListEdit
