import Mathlib.Data.List.Perm.Subperm
import SourceHistory.SetEdit
import SourceHistory.Proofs.Attempt
import SourceHistory.Proofs.Collections

namespace SourceHistory.SetEdit

variable {α : Type} [Ord α] [Std.TransOrd α]
  {set result src dst : Std.ExtTreeSet α} {e : SetEdit α} {edits : List (SetEdit α)} {x : α}

def value : SetEdit α → α
  | add value => value
  | remove value => value

def Suits (set : Std.ExtTreeSet α) : SetEdit α → Prop
  | add value => value ∉ set
  | remove value => value ∈ set

section Apply

variable [Quoted α]

theorem suits_of_applyTo (h : applyTo set e = .ok result) : e.Suits set := by
  cases e <;> rw [applyTo] at h <;> split at h <;> simp_all [Suits]

variable [Std.LawfulEqOrd α]

theorem exists_applyTo (h : e.Suits set) :
    ∃ result, applyTo set e = .ok result ∧
      ∀ x, x ∈ result ↔ e = add x ∨ x ∈ set ∧ e ≠ remove x := by
  cases e with
  | add v =>
    have hnew : v ∉ set := h
    refine ⟨set.insert v, by simp [applyTo, hnew], fun x => ?_⟩
    rw [Std.ExtTreeSet.mem_insert, Std.LawfulEqCmp.compare_eq_iff_eq]
    simp
  | remove v =>
    have hold : v ∈ set := h
    refine ⟨set.erase v, by simp [applyTo, hold], fun x => ?_⟩
    rw [Std.ExtTreeSet.mem_erase, ne_eq, Std.LawfulEqCmp.compare_eq_iff_eq]
    simp [and_comm]

/-- An edit leaves all elements but its own alone. -/
theorem mem_applyTo_iff_of_ne (h : applyTo set e = .ok result) (hx : x ≠ e.value) :
    x ∈ result ↔ x ∈ set := by
  obtain ⟨after, hafter, hmem⟩ := exists_applyTo (suits_of_applyTo h)
  obtain rfl := Except.ok.inj (h.symm.trans hafter)
  rw [hmem]
  cases e <;> simp_all [value, eq_comm]

theorem mem_apply_iff_of_not_mem (h : apply set edits = .ok result) (hx : x ∉ edits.map value) :
    x ∈ result ↔ x ∈ set := by
  induction edits generalizing set with
  | nil =>
    obtain rfl := Except.ok.inj h
    rfl
  | cons e edits ih =>
    rw [apply, List.foldlM_cons] at h
    obtain ⟨middle, hstep, hrest⟩ := bind_eq_ok_iff.1 h
    obtain ⟨hne, hx⟩ := not_or.1 (mt List.mem_cons.2 hx)
    rw [ih hrest hx, mem_applyTo_iff_of_ne hstep hne]

/-- Edits of different elements that suit a set suit it in any order. -/
theorem exists_apply (hnd : (edits.map value).Nodup) (hsuits : ∀ e ∈ edits, e.Suits set) :
    ∃ result, apply set edits = .ok result ∧
      ∀ x, x ∈ result ↔ add x ∈ edits ∨ x ∈ set ∧ remove x ∉ edits := by
  induction edits generalizing set with
  | nil => exact ⟨set, rfl, by simp⟩
  | cons e edits ih =>
    obtain ⟨hfresh, hnd⟩ := List.nodup_cons.1 hnd
    obtain ⟨hnow, hsuits⟩ := List.forall_mem_cons.1 hsuits
    obtain ⟨middle, hstep, hmiddle⟩ := exists_applyTo hnow
    -- the later edits are about other elements, which this one leaves as they were
    have hlater : ∀ d ∈ edits, d.Suits middle := by
      intro d hd
      have hne : d.value ≠ e.value := fun he => hfresh (he ▸ List.mem_map_of_mem hd)
      have hkeep := mem_applyTo_iff_of_ne hstep hne
      have hsuit := hsuits d hd
      cases d with
      | add v => exact mt hkeep.1 hsuit
      | remove v => exact hkeep.2 hsuit
    obtain ⟨result, hr, hmem⟩ := ih hnd hlater
    refine ⟨result, (foldlM_cons_of_ok hstep).trans hr, fun x => ?_⟩
    have hremove : remove x ∈ edits → e ≠ add x := by
      rintro hd rfl
      exact hfresh (List.mem_map.2 ⟨_, hd, rfl⟩)
    rw [hmem, hmiddle, List.mem_cons, List.mem_cons, eq_comm (b := e), eq_comm (b := e)]
    tauto

end Apply

variable [Std.LawfulEqOrd α]

theorem add_mem_diff_iff : add x ∈ diff src dst ↔ x ∈ dst ∧ x ∉ src := by
  simp [diff, ← Std.ExtTreeSet.contains_iff_mem]

theorem remove_mem_diff_iff : remove x ∈ diff src dst ↔ x ∈ src ∧ x ∉ dst := by
  simp [diff, ← Std.ExtTreeSet.contains_iff_mem]

theorem suits_of_mem_diff (h : e ∈ diff src dst) : e.Suits src := by
  cases e with
  | add v => exact (add_mem_diff_iff.1 h).2
  | remove v => exact (remove_mem_diff_iff.1 h).1

theorem nodup_values_diff (src dst : Std.ExtTreeSet α) : ((diff src dst).map value).Nodup := by
  have hvalues : (diff src dst).map value =
      (dst.toList.filter fun v => !src.contains v) ++
        src.toList.filter fun v => !dst.contains v := by
    simp [diff, Function.comp_def, value]
  rw [hvalues, List.nodup_append]
  refine ⟨(nodup_toList dst).filter _, (nodup_toList src).filter _, ?_⟩
  rintro a ha b hb rfl
  have hold : a ∈ src := Std.ExtTreeSet.mem_toList.1 (List.mem_filter.1 hb).1
  have hnew := (List.mem_filter.1 ha).2
  rw [Std.ExtTreeSet.contains_iff_mem.2 hold] at hnew
  cases hnew

variable [Quoted α]

theorem apply_of_perm_diff (h : edits.Perm (diff src dst)) : apply src edits = .ok dst := by
  have hnd : (edits.map value).Nodup := (h.map value).nodup_iff.2 (nodup_values_diff src dst)
  obtain ⟨result, hr, hmem⟩ := exists_apply hnd fun e he => suits_of_mem_diff (h.mem_iff.1 he)
  rw [hr, Except.ok.injEq]
  apply Std.ExtTreeSet.ext_mem
  intro x
  rw [hmem, h.mem_iff, h.mem_iff, add_mem_diff_iff, remove_mem_diff_iff]
  tauto

/-- The difference of two sets turns the first into the second. -/
theorem apply_diff (src dst : Std.ExtTreeSet α) : apply src (diff src dst) = .ok dst :=
  apply_of_perm_diff (.refl _)

theorem diff_eq_nil_iff : diff src dst = [] ↔ src = dst := by
  constructor
  · intro h
    have happly := apply_diff src dst
    rw [h] at happly
    exact Except.ok.inj happly
  · rintro rfl
    rw [List.eq_nil_iff_forall_not_mem]
    intro e he
    cases e with
    | add v => exact (add_mem_diff_iff.1 he).2 (add_mem_diff_iff.1 he).1
    | remove v => exact (remove_mem_diff_iff.1 he).2 (remove_mem_diff_iff.1 he).1

/-- A script between two sets moves every element that only one of them has. -/
theorem values_diff_subset (h : apply src edits = .ok dst) :
    (diff src dst).map value ⊆ edits.map value := by
  intro x hx
  by_contra hn
  have hsame := mem_apply_iff_of_not_mem h hn
  obtain ⟨e, he, rfl⟩ := List.mem_map.1 hx
  cases e with
  | add v => exact (add_mem_diff_iff.1 he).2 (hsame.1 (add_mem_diff_iff.1 he).1)
  | remove v => exact (remove_mem_diff_iff.1 he).2 (hsame.2 (remove_mem_diff_iff.1 he).1)

/-- The difference mentions no element twice, leads to its target in any order, and no script is
shorter. -/
theorem diff_in_any_order (src dst : Std.ExtTreeSet α) :
    ((diff src dst).map value).Nodup ∧
    (∀ edits : List (SetEdit α), edits.Perm (diff src dst) → apply src edits = .ok dst) ∧
    ∀ edits : List (SetEdit α), apply src edits = .ok dst →
      (diff src dst).length ≤ edits.length := by
  have hnd := nodup_values_diff src dst
  refine ⟨hnd, fun edits h => apply_of_perm_diff h, fun edits h => ?_⟩
  have hsub := (List.subperm_of_subset hnd (values_diff_subset h)).length_le
  rwa [List.length_map, List.length_map] at hsub

/-- The additions last, and a script that adds an element only to remove it again. -/
theorem diff_in_any_order_of_detour :
    let src : NameSet := .ofList ["a", "b"]
    let dst : NameSet := .ofList ["b", "c", "d"]
    let detour : List (SetEdit String) := [.add "e", .add "d", .remove "a", .remove "e", .add "c"]
    apply src [.remove "a", .add "d", .add "c"] = .ok dst ∧
      apply src detour = .ok dst ∧ (diff src dst).length ≤ detour.length := by
  intro src dst detour
  have hdiff : diff src dst = [.add "c", .add "d", .remove "a"] := by decide +kernel
  have hdetour : apply src detour = .ok dst := by decide +kernel
  obtain ⟨-, hperm, hshort⟩ := diff_in_any_order src dst
  refine ⟨hperm _ ?_, hdetour, hshort detour hdetour⟩
  rw [hdiff]
  decide

end SourceHistory.SetEdit
