import Mathlib.Tactic.ByContra
import SourceHistory.Text.Cut

namespace SourceHistory.Text

variable {sep : Char} {s before after : List Char}

theorem cutFirst?_eq_none_iff : cutFirst? sep s = none ↔ sep ∉ s := by
  induction s with
  | nil => simp [cutFirst?]
  | cons c cs ih =>
    by_cases hc : c = sep
    · simp [cutFirst?, hc]
    · simp [cutFirst?, hc, ih, Ne.symm hc]

theorem cutLast?_eq_none_iff : cutLast? sep s = none ↔ sep ∉ s := by
  induction s with
  | nil => simp [cutLast?]
  | cons c cs ih =>
    rw [cutLast?]
    cases hcut : cutLast? sep cs with
    | some pair =>
      have hmem : sep ∈ cs := by
        by_contra h
        rw [ih.2 h] at hcut
        cases hcut
      simp [hmem]
    | none =>
      have hnot : sep ∉ cs := ih.1 hcut
      by_cases hc : c = sep
      · simp [hc]
      · simp [hc, hnot, Ne.symm hc]

theorem cutFirst?_append (h : sep ∉ before) :
    cutFirst? sep (before ++ sep :: after) = some (before, after) := by
  induction before with
  | nil => simp [cutFirst?]
  | cons c cs ih =>
    have hn : sep ≠ c ∧ sep ∉ cs := by simpa only [List.mem_cons, not_or] using h
    simp [cutFirst?, Ne.symm hn.1, ih hn.2]

theorem cutFirst?_eq_some (h : cutFirst? sep s = some (before, after)) :
    s = before ++ sep :: after := by
  induction s generalizing before with
  | nil => cases h
  | cons c cs ih =>
    rw [cutFirst?] at h
    split at h
    · next hc =>
      simp only [Option.some.injEq, Prod.mk.injEq] at h
      obtain ⟨rfl, rfl⟩ := h
      rw [hc, List.nil_append]
    · obtain ⟨⟨pre, post⟩, hcut, he⟩ := Option.map_eq_some_iff.1 h
      simp only [Prod.mk.injEq] at he
      obtain ⟨rfl, rfl⟩ := he
      rw [ih hcut, List.cons_append]

/-- What stands after the first separator does not move it. -/
theorem cutFirst?_append_of_mem (h : sep ∈ before) :
    (cutFirst? sep (before ++ after)).map Prod.fst = (cutFirst? sep before).map Prod.fst := by
  induction before with
  | nil => cases h
  | cons c cs ih =>
    by_cases hc : c = sep
    · simp [cutFirst?, hc]
    · have hm : sep ∈ cs := by
        rcases List.mem_cons.1 h with he | hm
        · exact absurd he.symm hc
        · exact hm
      have hmap := congrArg (Option.map (c :: ·)) (ih hm)
      simpa [cutFirst?, hc, Function.comp_def] using hmap

theorem cutLast?_append (h : sep ∉ after) :
    cutLast? sep (before ++ sep :: after) = some (before, after) := by
  induction before with
  | nil => simp [cutLast?, cutLast?_eq_none_iff.2 h]
  | cons c cs ih => simp [cutLast?, ih]

theorem cutLast?_eq_some_iff :
    cutLast? sep s = some (before, after) ↔ s = before ++ sep :: after ∧ sep ∉ after := by
  constructor
  · intro h
    induction s generalizing before with
    | nil => cases h
    | cons c cs ih =>
      rw [cutLast?] at h
      cases hcut : cutLast? sep cs with
      | some pair =>
        obtain ⟨pre, post⟩ := pair
        simp only [hcut, Option.some.injEq, Prod.mk.injEq] at h
        obtain ⟨rfl, rfl⟩ := h
        obtain ⟨hs, hn⟩ := ih hcut
        exact ⟨by rw [hs, List.cons_append], hn⟩
      | none =>
        simp only [hcut] at h
        split at h
        · next hc =>
          simp only [Option.some.injEq, Prod.mk.injEq] at h
          obtain ⟨rfl, rfl⟩ := h
          exact ⟨by rw [hc, List.nil_append], cutLast?_eq_none_iff.1 hcut⟩
        · cases h
  · intro hcut
    obtain ⟨rfl, hn⟩ := hcut
    exact cutLast?_append hn

/-- Text without a separator is one piece. -/
theorem pieces_eq_singleton (h : sep ∉ s) : pieces sep s = [s] := by
  induction s with
  | nil => rfl
  | cons c cs ih =>
    have hn : sep ≠ c ∧ sep ∉ cs := by simpa only [List.mem_cons, not_or] using h
    simp [pieces, Ne.symm hn.1, ih hn.2]

theorem pieces_ne_nil (sep : Char) (s : List Char) : pieces sep s ≠ [] := by
  cases s with
  | nil => simp [pieces]
  | cons c cs =>
    rw [pieces]
    split
    · simp
    · split <;> simp

/-- A separator ends one piece and starts the next. -/
theorem pieces_append (before after : List Char) :
    pieces sep (before ++ sep :: after) = pieces sep before ++ pieces sep after := by
  induction before with
  | nil => simp [pieces]
  | cons c cs ih =>
    rw [List.cons_append, pieces, pieces, ih]
    split
    · rfl
    · cases hp : pieces sep cs with
      | nil => exact absurd hp (pieces_ne_nil sep cs)
      | cons first rest => rfl

theorem length_pieces_of_mem (h : sep ∈ s) : 2 ≤ (pieces sep s).length := by
  obtain ⟨before, after, rfl⟩ := List.append_of_mem h
  have hb := List.length_pos_iff.2 (pieces_ne_nil sep before)
  have ha := List.length_pos_iff.2 (pieces_ne_nil sep after)
  rw [pieces_append, List.length_append]
  omega

end SourceHistory.Text
