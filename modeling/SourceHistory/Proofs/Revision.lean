import SourceHistory.Revision

namespace SourceHistory.Revision

variable {r : Revision} {id author : String} {date : Time.Instant} {seconds : Int}

theorem make_eq_ok_iff : make id date author = .ok r ↔
    isValidId id = true ∧ 0 ≤ date.seconds ∧ r = ⟨id, date, author⟩ := by
  rw [make]
  by_cases hid : isValidId id = true
  · by_cases hdate : date.seconds < 0
    · simp [hid, hdate, Int.not_le.2 hdate]
    · simp [hid, hdate, Int.not_lt.1 hdate, eq_comm]
  · simp [hid]

theorem ofSeconds_eq_ok_iff : ofSeconds id seconds author = .ok r ↔
    isValidId id = true ∧ 0 ≤ seconds ∧ seconds ≤ Time.Instant.maxSeconds ∧
      r = ⟨id, ⟨seconds, 0⟩, author⟩ := by
  rw [ofSeconds, Time.Instant.ofSeconds?]
  by_cases hr : Time.Instant.inRange seconds = true
  · have hmax : seconds ≤ Time.Instant.maxSeconds := by
      simpa using (Bool.and_eq_true_iff.1 hr).2
    rw [if_pos hr]
    simp only [make_eq_ok_iff, hmax, true_and]
  · rw [if_neg hr]
    refine iff_of_false nofun ?_
    rintro ⟨-, hmin, hmax, -⟩
    refine hr (Bool.and_eq_true_iff.2 ⟨decide_eq_true ?_, decide_eq_true hmax⟩)
    exact Int.le_trans (by decide) hmin

theorem not_mem_of_isValidId {c : Char} (h : isValidId id = true)
    (hc : Text.isAlphanumeric c = false) : c ∉ id.toList := by
  intro hm
  rw [List.all_eq_true.1 (Bool.and_eq_true_iff.1 h).2 c hm] at hc
  cases hc

/-- What starts with an id is no option. -/
theorem head?_append_ne_dash (h : isValidId id = true) (suffix : String) :
    (id ++ suffix).toList.head? ≠ some '-' := by
  have hne : id.toList ≠ [] := of_decide_eq_true (Bool.and_eq_true_iff.1 h).1
  obtain ⟨c, cs, hcs⟩ := List.exists_cons_of_ne_nil hne
  rw [String.toList_append, hcs, List.cons_append, List.head?_cons]
  rintro ⟨rfl⟩
  exact not_mem_of_isValidId h (by decide +kernel) (hcs ▸ List.mem_cons_self)

end SourceHistory.Revision
