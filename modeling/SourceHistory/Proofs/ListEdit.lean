import SourceHistory.ListEdit
import SourceHistory.Proofs.Attempt

namespace SourceHistory.ListEdit

variable {α : Type} {x y : α} {source target suffix : List α} {edits : List (ListEdit α)}

/-- The script between two reversed lists by recursion on both of them. -/
def script [DecidableEq α] : (source target : List α) → Script α
  | [], [] => ⟨0, []⟩
  | [], y :: ys => (script [] ys).cons (.add 0 y)
  | _ :: xs, [] => (script xs []).cons (.remove xs.length)
  | x :: xs, y :: ys =>
    Script.best (xs.length + 1) x y (script xs (y :: ys)) (script xs ys) (script (x :: xs) ys)
termination_by source target => source.length + target.length

theorem insertionRow_eq [DecidableEq α] (target : List α) :
    insertionRow target = target.tails.map (script []) := by
  induction target with
  | nil => rw [insertionRow, List.tails, List.map_singleton, script]
  | cons y ys ih =>
    rw [insertionRow, ih, List.tails, List.map_cons, script]
    cases ys <;> rfl

theorem nextRow_eq [DecidableEq α] (target : List α) :
    nextRow (source.length + 1) x target (target.tails.map (script source)) =
      target.tails.map (script (x :: source)) := by
  induction target with
  | nil => simp [nextRow, script]
  | cons y ys ih =>
    have hrow : ∀ s : List α, ∃ rest, ys.tails.map (script s) = script s ys :: rest := by
      intro s
      cases ys <;> exact ⟨_, rfl⟩
    obtain ⟨above, habove⟩ := hrow source
    obtain ⟨row, hnext⟩ := hrow (x :: source)
    rw [List.tails, List.map_cons, habove, nextRow, ← habove, ih, hnext, List.map_cons, hnext,
      script]

/-- Every entry of a row is the script for its pair of lists. -/
theorem scriptRow_eq [DecidableEq α] (source target : List α) :
    scriptRow source target = target.tails.map (script source) := by
  induction source with
  | nil => exact insertionRow_eq target
  | cons x xs ih => rw [scriptRow, ih, nextRow_eq]

theorem diff_eq_script [DecidableEq α] (src dst : List α) :
    diff src dst = (script src.reverse dst.reverse).edits := by
  rw [diff, scriptRow_eq]
  cases dst.reverse <;> rfl

theorem insertIdx_append_length (before after : List α) :
    (before ++ after).insertIdx before.length y = before ++ y :: after := by
  induction before with
  | nil => simp
  | cons x before ih => simpa using ih

theorem apply_cons {list list' : List α} {edit : ListEdit α} (h : applyTo list edit = .ok list') :
    apply list (edit :: edits) = apply list' edits :=
  foldlM_cons_of_ok h

/-- The script turns one reversed list into another. It works from the end of its lists, so whatever
stands behind them is carried along. -/
def Solves (edits : List (ListEdit α)) (source target : List α) : Prop :=
  ∀ suffix, apply (source.reverse ++ suffix) edits = .ok (target.reverse ++ suffix)

namespace Solves

theorem nil : Solves ([] : List (ListEdit α)) [] [] := fun _ => rfl

theorem keep (h : Solves edits source target) : Solves edits (x :: source) (x :: target) := by
  intro suffix
  simpa using h (x :: suffix)

theorem remove (h : Solves edits source target) :
    Solves (.remove source.length :: edits) (x :: source) target := by
  intro suffix
  have hstep : applyTo ((x :: source).reverse ++ suffix) (.remove source.length) =
      .ok (source.reverse ++ suffix) := by
    simp [applyTo, List.eraseIdx_append_of_length_le]
  rw [apply_cons hstep, h suffix]

theorem add (h : Solves edits source target) :
    Solves (.add source.length y :: edits) source (y :: target) := by
  intro suffix
  have hstep : applyTo (source.reverse ++ suffix) (.add source.length y) =
      .ok (source.reverse ++ y :: suffix) := by
    have hidx := insertIdx_append_length (y := y) source.reverse suffix
    rw [List.length_reverse] at hidx
    simp [applyTo, hidx]
  rw [apply_cons hstep, h (y :: suffix)]
  simp

theorem best [DecidableEq α] {removed kept inserted : Script α}
    (hr : Solves removed.edits source (y :: target)) (hk : Solves kept.edits source target)
    (hi : Solves inserted.edits (x :: source) target) :
    Solves (Script.best (source.length + 1) x y removed kept inserted).edits (x :: source)
      (y :: target) := by
  rw [Script.best]
  split
  · next he => exact he ▸ hk.keep
  · split
    · exact hr.remove
    · exact hi.add

end Solves

theorem solves_script [DecidableEq α] (source target : List α) :
    Solves (script source target).edits source target := by
  fun_induction script source target with
  | case1 => exact Solves.nil
  | case2 y ys ih => exact ih.add
  | case3 x xs ih => exact ih.remove
  | case4 x xs y ys hr hk hi => exact Solves.best hr hk hi

/-- The difference of two lists turns the first into the second. -/
theorem apply_diff [DecidableEq α] (src dst : List α) : apply src (diff src dst) = .ok dst := by
  rw [diff_eq_script]
  simpa using solves_script src.reverse dst.reverse []

theorem script_self [DecidableEq α] (list : List α) : script list list = ⟨0, []⟩ := by
  induction list with
  | nil => rw [script]
  | cons x xs ih => rw [script, Script.best, if_pos rfl, ih]

theorem diff_eq_nil_iff [DecidableEq α] {src dst : List α} : diff src dst = [] ↔ src = dst := by
  constructor
  · intro h
    have happly := apply_diff src dst
    rw [h] at happly
    exact Except.ok.inj happly
  · rintro rfl
    rw [diff_eq_script, script_self]

end SourceHistory.ListEdit
