import SourceHistory.Git.Log
import SourceHistory.Proofs.Attempt
import SourceHistory.Proofs.Revision
import SourceHistory.Proofs.Text.Decimal
import SourceHistory.Proofs.Text.Lines

namespace SourceHistory.Git

open Text

variable {r : Revision} {revisions : List Revision} {text : List Char}

def logLines (r : Revision) : List (List Char) :=
  ["commit ".toList ++ r.id.toList, decimal r.date.seconds.toNat ++ ':' :: r.author.toList]

/-- A revision that a log can hold: its time counts whole seconds up to the last representable one,
and its author ends no line. -/
structure Loggable (r : Revision) : Prop where
  id_valid : Revision.isValidId r.id = true
  nanos_eq : r.date.nanos = 0
  seconds_nonneg : 0 ≤ r.date.seconds
  seconds_le : r.date.seconds ≤ 8210266876799
  feed_not_mem : '\n' ∉ r.author.toList
  getLast?_ne : r.author.toList.getLast? ≠ some '\r'

theorem Loggable.isLine (h : Loggable r) : ∀ line ∈ logLines r, IsLine line := by
  rw [logLines, List.forall_mem_cons, List.forall_mem_singleton]
  constructor
  · have hfeed : '\n' ∉ r.id.toList := Revision.not_mem_of_isValidId h.id_valid (by decide +kernel)
    have hreturn : '\r' ∉ r.id.toList := Revision.not_mem_of_isValidId h.id_valid (by decide +kernel)
    refine ⟨by simp, by simpa using hfeed, fun hlast => ?_⟩
    have hmem := List.mem_of_getLast? hlast
    exact hreturn (by simpa using hmem)
  · refine ⟨by simp, ?_, ?_⟩
    · have hfeed : '\n' ∉ decimal r.date.seconds.toNat := not_mem_decimal (by decide) _
      simpa [hfeed] using h.feed_not_mem
    · rw [List.getLast?_append, List.getLast?_cons]
      cases ha : r.author.toList.getLast? with
      | none => simp
      | some c => simpa [ha] using h.getLast?_ne

theorem commitId_eq (id : String) : commitId ("commit ".toList ++ id.toList) = .ok id := by
  have hmark : "commit ".toList = commitMark := by decide
  have hstart : commitMark.isPrefixOf (commitMark ++ id.toList) = true :=
    List.isPrefixOf_iff_prefix.2 (List.prefix_append commitMark id.toList)
  rw [hmark, commitId, if_pos hstart, List.drop_left, String.ofList_toList]

theorem Loggable.commitDetails_eq (h : Loggable r) :
    commitDetails r.id (decimal r.date.seconds.toNat ++ ':' :: r.author.toList) = .ok r := by
  have hcolon : ':' ∉ decimal r.date.seconds.toNat := not_mem_decimal (by decide) _
  have htime : int64? (decimal r.date.seconds.toNat) = some r.date.seconds := by
    have hmin := h.seconds_nonneg
    have hmax := h.seconds_le
    rw [int64?_decimal (by omega), Int.toNat_of_nonneg hmin]
  have hmake : Revision.ofSeconds r.id r.date.seconds r.author = .ok r := by
    refine Revision.ofSeconds_eq_ok_iff.2 ⟨h.id_valid, h.seconds_nonneg, h.seconds_le, ?_⟩
    rw [← h.nanos_eq]
  rw [commitDetails, cutFirst?_append hcolon]
  simp only [htime, String.ofList_toList, hmake]
  rfl

theorem commitsOfLines_flatMap (h : ∀ r ∈ revisions, Loggable r) :
    commitsOfLines (revisions.flatMap logLines) = .ok revisions := by
  induction revisions with
  | nil => rfl
  | cons r revisions ih =>
    obtain ⟨hr, hrest⟩ := List.forall_mem_cons.1 h
    rw [List.flatMap_cons, logLines, List.cons_append, List.cons_append, List.nil_append,
      commitsOfLines, commitId_eq]
    exact bind_eq_ok_iff.2 ⟨r.id, rfl, bind_eq_ok_iff.2 ⟨r, hr.commitDetails_eq,
      bind_eq_ok_iff.2 ⟨revisions, ih hrest, rfl⟩⟩⟩

theorem parseLog_eq_ok (h : ∀ r ∈ revisions, Loggable r)
    (ht : Spaced (revisions.flatMap logLines) text) : parseLog text = .ok revisions := by
  have hlines : contentLines text = revisions.flatMap logLines := by
    refine ht.filter_lines fun line hline => ?_
    obtain ⟨r, hr, hline⟩ := List.mem_flatMap.1 hline
    exact (h r hr).isLine line hline
  have heven : (revisions.flatMap logLines).length % 2 = 0 := by
    simp [List.length_flatMap, logLines]
  rw [parseLog, hlines, if_pos heven, commitsOfLines_flatMap h]

theorem commitId_cases (line : List Char) :
    (∃ message, commitId line = .error (.malformed message)) ∨ ∃ id, commitId line = .ok id := by
  rw [commitId]
  split
  · exact Or.inr ⟨_, rfl⟩
  · exact Or.inl ⟨_, rfl⟩

theorem commitDetails_cases (id : String) (line : List Char) :
    (∃ message, commitDetails id line = .error (.malformed message)) ∨
      ∃ r, commitDetails id line = .ok r ∧ Revision.isValidId r.id = true ∧ 0 ≤ r.date.seconds := by
  rw [commitDetails]
  cases cutFirst? ':' line with
  | none => exact Or.inl ⟨_, rfl⟩
  | some cut =>
    obtain ⟨time, author⟩ := cut
    dsimp only
    cases int64? time with
    | none => exact Or.inl ⟨_, rfl⟩
    | some seconds =>
      dsimp only
      cases hr : Revision.ofSeconds id seconds (String.ofList author) with
      | error error => exact Or.inl ⟨error.message, rfl⟩
      | ok r =>
        obtain ⟨hid, hmin, -, rfl⟩ := Revision.ofSeconds_eq_ok_iff.1 hr
        exact Or.inr ⟨_, rfl, hid, hmin⟩

theorem commitsOfLines_cases (lines : List (List Char)) (heven : lines.length % 2 = 0) :
    (∃ message, commitsOfLines lines = .error (.malformed message)) ∨
      ∃ revisions, commitsOfLines lines = .ok revisions ∧ 2 * revisions.length = lines.length ∧
        ∀ r ∈ revisions, Revision.isValidId r.id = true ∧ 0 ≤ r.date.seconds := by
  fun_induction commitsOfLines lines with
  | case1 first second rest ih =>
    have hrest : rest.length % 2 = 0 := by
      simp only [List.length_cons] at heven
      omega
    simp only [bind_eq_error_iff, bind_eq_ok_iff]
    rcases commitId_cases first with ⟨message, hfirst⟩ | ⟨id, hfirst⟩
    · exact Or.inl ⟨message, Or.inl hfirst⟩
    rcases commitDetails_cases id second with ⟨message, hsecond⟩ | ⟨r, hsecond, hr⟩
    · exact Or.inl ⟨message, Or.inr ⟨id, hfirst, Or.inl hsecond⟩⟩
    rcases ih hrest with ⟨message, hmore⟩ | ⟨revisions, hmore, hlength, hall⟩
    · exact Or.inl ⟨message, Or.inr ⟨id, hfirst, Or.inr ⟨r, hsecond, Or.inl hmore⟩⟩⟩
    · refine Or.inr ⟨r :: revisions, ⟨id, hfirst, r, hsecond, revisions, hmore, rfl⟩, ?_, ?_⟩
      · simp only [List.length_cons]
        omega
      · exact List.forall_mem_cons.2 ⟨hr, hall⟩
  | case2 lines hpair =>
    have hnil : lines = [] := by
      cases lines with
      | nil => rfl
      | cons first rest =>
        cases rest with
        | nil => cases heven
        | cons second rest => exact absurd rfl (hpair first second rest)
    subst hnil
    exact Or.inr ⟨[], rfl, rfl, nofun⟩

theorem parseLog_cases (text : List Char) :
    (∃ message, parseLog text = .error (.malformed message)) ∨
      ∃ revisions, parseLog text = .ok revisions ∧
        2 * revisions.length = (contentLines text).length ∧
        ∀ r ∈ revisions, Revision.isValidId r.id = true ∧ 0 ≤ r.date.seconds := by
  rw [parseLog]
  by_cases heven : (contentLines text).length % 2 = 0
  · rw [if_pos heven]
    exact commitsOfLines_cases (contentLines text) heven
  · rw [if_neg heven]
    exact Or.inl ⟨_, rfl⟩

/-- Reading undoes writing: a log of revisions reads back as them, whatever their authors look like
and wherever empty lines stand. And every text at all is refused as malformed, or each revision that
is read from it, valid in id and date, takes two of its lines that are not empty. -/
theorem parseLog_undoes_format :
    (∀ (revisions : List Revision) (text : List Char), (∀ r ∈ revisions, Loggable r) →
      Spaced (revisions.flatMap logLines) text → parseLog text = .ok revisions) ∧
    ∀ text : List Char, (∃ message, parseLog text = .error (.malformed message)) ∨
      ∃ revisions, parseLog text = .ok revisions ∧
        2 * revisions.length = ((lines text).filter fun line => line ≠ []).length ∧
        ∀ r ∈ revisions, Revision.isValidId r.id = true ∧ 0 ≤ r.date.seconds :=
  ⟨fun _ _ => parseLog_eq_ok, parseLog_cases⟩

/-- An author without a name, the last representable second, an author who looks like a commit, and
no line feed at the end. -/
theorem parseLog_undoes_format_of_odd_authors :
    let first : Revision := ⟨"0a", ⟨0, 0⟩, ""⟩
    let second : Revision := ⟨"ß1", ⟨8210266876799, 0⟩, "commit 3d: Grace\rHopper"⟩
    let text := "\ncommit 0a\n\n0:\ncommit ß1\n8210266876799:commit 3d: Grace\rHopper".toList
    (∀ r ∈ [first, second], Loggable r) ∧ Spaced ([first, second].flatMap logLines) text ∧
      parseLog text = .ok [first, second] := by
  intro first second text
  have hfirst : Loggable first :=
    ⟨by decide +kernel, rfl, by decide, by decide, by decide, by decide⟩
  have hsecond : Loggable second :=
    ⟨by decide +kernel, rfl, by decide, by decide, by decide, by decide⟩
  have hlog : ∀ r ∈ [first, second], Loggable r :=
    List.forall_mem_cons.2 ⟨hfirst, List.forall_mem_singleton.2 hsecond⟩
  have hwritten : [first, second].flatMap logLines = ["commit 0a".toList, "0:".toList,
      "commit ß1".toList, "8210266876799:commit 3d: Grace\rHopper".toList] := by decide +kernel
  have hspaced : Spaced ([first, second].flatMap logLines) text := by
    have htext : text = '\n' :: ("commit 0a".toList ++ '\n' :: '\n' :: ("0:".toList ++
        '\n' :: ("commit ß1".toList ++
          '\n' :: "8210266876799:commit 3d: Grace\rHopper".toList))) := by decide +kernel
    rw [hwritten, htext]
    exact .blank (.line (.blank (.line (.line .last))))
  exact ⟨hlog, hspaced, parseLog_undoes_format.1 [first, second] text hlog hspaced⟩

end SourceHistory.Git
