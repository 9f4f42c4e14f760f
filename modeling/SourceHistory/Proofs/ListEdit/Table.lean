import Mathlib.Data.Option.Basic
import SourceHistory.Proofs.ListEdit

namespace SourceHistory.ListEdit

variable {α : Type} {x y : α} {edits : List (ListEdit α)}

/-- Insertions and removals that go through a list of `size` elements from its end to its start. -/
inductive GoesBack : (size : Nat) → List (ListEdit α) → Prop where
  | nil : GoesBack 0 []
  | keep {size : Nat} {edits : List (ListEdit α)} : GoesBack size edits → GoesBack (size + 1) edits
  | remove {size : Nat} {edits : List (ListEdit α)} :
    GoesBack size edits → GoesBack (size + 1) (.remove size :: edits)
  | add {size : Nat} {value : α} {edits : List (ListEdit α)} :
    GoesBack size edits → GoesBack size (.add size value :: edits)

theorem goesBack_script [DecidableEq α] (source target : List α) :
    GoesBack source.length (script source target).edits := by
  fun_induction script source target with
  | case1 => exact .nil
  | case2 y ys ih => exact ih.add
  | case3 x xs ih => exact ih.remove
  | case4 x xs y ys hr hk hi =>
    rw [Script.best]
    split
    · exact hk.keep
    · split
      · exact hr.remove
      · exact hi.add

namespace GoesBack

variable {size : Nat} {e : ListEdit α}

theorem index_le (h : GoesBack size edits) (he : e ∈ edits) : e.index ≤ size := by
  induction h with
  | nil => cases he
  | keep _ ih => exact Nat.le_succ_of_le (ih he)
  | remove _ ih =>
    rcases List.mem_cons.1 he with rfl | he
    · exact Nat.le_succ _
    · exact Nat.le_succ_of_le (ih he)
  | add _ ih =>
    rcases List.mem_cons.1 he with rfl | he
    · exact Nat.le_refl _
    · exact ih he

theorem pairwise_index (h : GoesBack size edits) :
    edits.Pairwise fun e f => f.index ≤ e.index := by
  induction h with
  | nil => exact .nil
  | keep _ ih => exact ih
  | remove h ih => exact .cons (fun f hf => h.index_le hf) ih
  | add h ih => exact .cons (fun f hf => h.index_le hf) ih

theorem add_or_remove (h : GoesBack size edits) (he : e ∈ edits) :
    (∃ index value, e = .add index value) ∨ ∃ index, e = .remove index := by
  induction h with
  | nil => cases he
  | keep _ ih => exact ih he
  | @remove size _ _ ih =>
    rcases List.mem_cons.1 he with rfl | he
    · exact Or.inr ⟨size, rfl⟩
    · exact ih he
  | @add size value _ _ ih =>
    rcases List.mem_cons.1 he with rfl | he
    · exact Or.inl ⟨size, value, rfl⟩
    · exact ih he

end GoesBack

/-- The cell `(i, j)`: the number of edits from the first `i` elements of `src` to the first `j` of
`dst`. A cell that reads outside of a list has no value. -/
def cost? [DecidableEq α] (src dst : List α) : (i j : Nat) → Option Nat
  | 0, j => some j
  | i + 1, 0 => some (i + 1)
  | i + 1, j + 1 => do
    let x ← src[i]?
    let y ← dst[j]?
    if x = y then cost? src dst i j
    else
      let removed ← cost? src dst i (j + 1)
      let inserted ← cost? src dst (i + 1) j
      return 1 + min removed inserted

/-- The script that a cursor reads off the table on its way from the cell `(i, j)` to `(0, 0)`. Where
the cursor would leave the table or read outside of a list there is none. -/
def walkBack? [DecidableEq α] (src dst : List α) : (i j : Nat) → Option (List (ListEdit α))
  | 0, 0 => some []
  | 0, j + 1 => do
    let y ← dst[j]?
    let edits ← walkBack? src dst 0 j
    return .add 0 y :: edits
  | i + 1, 0 => do
    let here ← cost? src dst (i + 1) 0
    let removed ← cost? src dst i 0
    guard (here = removed + 1)
    let edits ← walkBack? src dst i 0
    return .remove i :: edits
  | i + 1, j + 1 => do
    let x ← src[i]?
    let y ← dst[j]?
    if x = y then walkBack? src dst i j
    else
      let here ← cost? src dst (i + 1) (j + 1)
      let removed ← cost? src dst i (j + 1)
      if here = removed + 1 then
        let edits ← walkBack? src dst i (j + 1)
        return .remove i :: edits
      else
        let edits ← walkBack? src dst (i + 1) j
        return .add (i + 1) y :: edits
termination_by i j => i + j

def scriptAt [DecidableEq α] (src dst : List α) (i j : Nat) : Script α :=
  script (src.take i).reverse (dst.take j).reverse

variable {src dst : List α} {i j : Nat}

theorem reverse_take_succ {list : List α} (h : list[i]? = some x) :
    (list.take (i + 1)).reverse = x :: (list.take i).reverse := by
  rw [List.take_add_one, h, Option.toList_some, List.reverse_append]
  rfl

theorem length_reverse_take {list : List α} (h : list[i]? = some x) :
    (list.take i).reverse.length = i := by
  obtain ⟨hi, -⟩ := List.getElem?_eq_some_iff.1 h
  rw [List.length_reverse, List.length_take_of_le (Nat.le_of_lt hi)]

variable [DecidableEq α]

theorem scriptAt_zero_zero : scriptAt src dst 0 0 = ⟨0, []⟩ := by
  rw [scriptAt, List.take_zero, List.take_zero, List.reverse_nil, script]

theorem scriptAt_zero_succ (hy : dst[j]? = some y) :
    scriptAt src dst 0 (j + 1) = (scriptAt src dst 0 j).cons (.add 0 y) := by
  rw [scriptAt, reverse_take_succ hy, List.take_zero, List.reverse_nil, script]
  rfl

theorem scriptAt_succ_zero (hx : src[i]? = some x) :
    scriptAt src dst (i + 1) 0 = (scriptAt src dst i 0).cons (.remove i) := by
  rw [scriptAt, reverse_take_succ hx, List.take_zero, List.reverse_nil, script,
    length_reverse_take hx]
  rfl

theorem scriptAt_succ_succ (hx : src[i]? = some x) (hy : dst[j]? = some y) :
    scriptAt src dst (i + 1) (j + 1) =
      Script.best (i + 1) x y (scriptAt src dst i (j + 1)) (scriptAt src dst i j)
        (scriptAt src dst (i + 1) j) := by
  rw [scriptAt, scriptAt, scriptAt, scriptAt, reverse_take_succ hx, reverse_take_succ hy, script,
    length_reverse_take hx]

theorem Script.cost_best (size : Nat) {removed kept inserted : Script α} (h : x ≠ y) :
    (Script.best size x y removed kept inserted).cost = 1 + min removed.cost inserted.cost := by
  rw [Script.best, if_neg h]
  split <;> simp only [Script.cons] <;> omega

theorem cost?_zero (i : Nat) : cost? src dst i 0 = some i := by
  cases i <;> rw [cost?]

/-- Within the lists every cell has a value, the cost of its script. -/
theorem cost?_eq_some (hi : i ≤ src.length) (hj : j ≤ dst.length) :
    cost? src dst i j = some (scriptAt src dst i j).cost := by
  induction i generalizing j with
  | zero =>
    induction j with
    | zero => rw [cost?, scriptAt_zero_zero]
    | succ j ih =>
      have hrest := ih (Nat.le_of_succ_le hj)
      rw [cost?, Option.some.injEq] at hrest ⊢
      rw [scriptAt_zero_succ (List.getElem?_eq_getElem hj), Script.cons, ← hrest]
  | succ i ih =>
    have hx := List.getElem?_eq_getElem hi
    have hi' := Nat.le_of_succ_le hi
    induction j with
    | zero =>
      have hrest := ih hi' hj
      rw [cost?_zero, Option.some.injEq] at hrest
      rw [cost?, scriptAt_succ_zero hx, Script.cons, ← hrest]
    | succ j ihj =>
      have hy := List.getElem?_eq_getElem hj
      have hj' := Nat.le_of_succ_le hj
      rw [cost?, hx, hy, scriptAt_succ_succ hx hy]
      simp only [Option.bind_eq_bind, Option.bind_some, ih hi' hj', ih hi' hj, ihj hj']
      split
      · next he => rw [Script.best, if_pos he]
      · next he => rw [Script.cost_best _ he]; rfl

/-- From every cell within the lists the cursor reaches the corner, and it reads off the script. -/
theorem walkBack?_eq_some (hi : i ≤ src.length) (hj : j ≤ dst.length) :
    walkBack? src dst i j = some (scriptAt src dst i j).edits := by
  induction i generalizing j with
  | zero =>
    induction j with
    | zero => rw [walkBack?, scriptAt_zero_zero]
    | succ j ih =>
      have hy := List.getElem?_eq_getElem hj
      rw [walkBack?, hy, ih (Nat.le_of_succ_le hj), scriptAt_zero_succ hy]
      rfl
  | succ i ih =>
    have hx := List.getElem?_eq_getElem hi
    have hi' := Nat.le_of_succ_le hi
    induction j with
    | zero =>
      rw [walkBack?, cost?_eq_some hi hj, cost?_eq_some hi' hj, ih hi' hj, scriptAt_succ_zero hx]
      generalize scriptAt src dst i 0 = rest
      have hguard : (guard (rest.cost + 1 = rest.cost + 1) : Option Unit) = some () := if_pos rfl
      change (guard (rest.cost + 1 = rest.cost + 1) >>= fun _ => some (.remove i :: rest.edits)) = _
      rw [hguard]
      rfl
    | succ j ihj =>
      have hy := List.getElem?_eq_getElem hj
      have hj' := Nat.le_of_succ_le hj
      rw [walkBack?, hx, hy, cost?_eq_some hi hj, cost?_eq_some hi' hj]
      simp only [Option.bind_eq_bind, Option.bind_some, ih hi' hj', ih hi' hj, ihj hj']
      rw [scriptAt_succ_succ hx hy]
      by_cases he : src[i] = dst[j]
      · rw [if_pos he, Script.best, if_pos he]
      · rw [if_neg he, Script.cost_best _ he, Script.best, if_neg he]
        have hmin (removed inserted : Nat) :
            1 + min removed inserted = removed + 1 ↔ removed ≤ inserted := by omega
        simp only [hmin]
        split <;> rfl

/-- The difference of two lists is what a cursor reads off the table without ever leaving it. It
consists of insertions and removals, their places never rise, and it turns the first list into the
second. -/
theorem diff_read_off_table (src dst : List α) :
    walkBack? src dst src.length dst.length = some (diff src dst) ∧
    (∀ e ∈ diff src dst, (∃ index value, e = .add index value) ∨ ∃ index, e = .remove index) ∧
    ((diff src dst).Pairwise fun e f => f.index ≤ e.index) ∧
    apply src (diff src dst) = .ok dst := by
  have hback : GoesBack src.reverse.length (diff src dst) := by
    rw [diff_eq_script]
    exact goesBack_script src.reverse dst.reverse
  refine ⟨?_, fun e he => hback.add_or_remove he, hback.pairwise_index, apply_diff src dst⟩
  rw [walkBack?_eq_some (Nat.le_refl _) (Nat.le_refl _), scriptAt, List.take_length, List.take_length,
    diff_eq_script]

example : diff [1, 2, 3] [2, 4, 3] = [.add 2 4, .remove 0] := by decide

end SourceHistory.ListEdit
