import SourceHistory.Proofs.Text.Cut
import SourceHistory.Text.Lines

namespace SourceHistory.Text

variable {line rest text : List Char} {written : List (List Char)}

theorem lines_append (h : '\n' ∉ line) :
    lines (line ++ '\n' :: rest) = dropReturn line :: lines rest := by
  rw [lines, lines, pieces_append, pieces_eq_singleton h]
  cases hp : pieces '\n' rest with
  | nil => exact absurd hp (pieces_ne_nil '\n' rest)
  | cons first more => rfl

theorem lines_eq_singleton (h : '\n' ∉ line) (hne : line ≠ []) : lines line = [line] := by
  rw [lines, pieces_eq_singleton h, closeLines, if_neg]
  simpa using hne

theorem dropReturn_eq_self (h : line.getLast? ≠ some '\r') : dropReturn line = line := if_neg h

/-- A text of lines that were written one after the other, with any number of empty lines around
them; the last line feed may be missing. -/
inductive Spaced : (written : List (List Char)) → (text : List Char) → Prop where
  | nil : Spaced [] []
  | blank {written : List (List Char)} {text : List Char} :
    Spaced written text → Spaced written ('\n' :: text)
  | line {line : List Char} {written : List (List Char)} {text : List Char} :
    Spaced written text → Spaced (line :: written) (line ++ '\n' :: text)
  | last {line : List Char} : Spaced [line] line

/-- A line that reads back as it was written. -/
structure IsLine (line : List Char) : Prop where
  ne_nil : line ≠ []
  feed_not_mem : '\n' ∉ line
  getLast?_ne : line.getLast? ≠ some '\r'

theorem Spaced.filter_lines (h : Spaced written text) (hlines : ∀ line ∈ written, IsLine line) :
    (lines text).filter (fun line => line ≠ []) = written := by
  induction h with
  | nil => rfl
  | @blank written text _ ih =>
    have hblank : lines ('\n' :: text) = [] :: lines text :=
      lines_append (List.not_mem_nil (a := '\n'))
    rw [hblank, List.filter_cons_of_neg (by simp), ih hlines]
  | @line line written text _ ih =>
    obtain ⟨hline, hrest⟩ := List.forall_mem_cons.1 hlines
    rw [lines_append hline.feed_not_mem, dropReturn_eq_self hline.getLast?_ne,
      List.filter_cons_of_pos (by simpa using hline.ne_nil), ih hrest]
  | @last line =>
    have hline := List.forall_mem_singleton.1 hlines
    rw [lines_eq_singleton hline.feed_not_mem hline.ne_nil,
      List.filter_cons_of_pos (by simpa using hline.ne_nil), List.filter_nil]

end SourceHistory.Text
