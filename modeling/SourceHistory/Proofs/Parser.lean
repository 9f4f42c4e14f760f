import SourceHistory.Parser
import SourceHistory.Proofs.Text.Cut

namespace SourceHistory.Parser

open Text

variable {extension path : String}

/-- The path of a file with a name of its own before a dot and `extension`. -/
def EndsWith (extension path : String) : Prop :=
  ∃ stem : String, stem ≠ "" ∧ stem.toList.getLast? ≠ some '/' ∧ path = stem ++ "." ++ extension

theorem endsWith_iff : EndsWith extension path ↔
    ∃ stem : List Char, stem ≠ [] ∧ stem.getLast? ≠ some '/' ∧
      path.toList = stem ++ '.' :: extension.toList := by
  have hdot (stem : String) : (stem ++ "." ++ extension).toList =
      stem.toList ++ '.' :: extension.toList := by simp
  constructor
  · rintro ⟨stem, hne, hname, rfl⟩
    exact ⟨stem.toList, by simpa using hne, hname, hdot stem⟩
  · rintro ⟨stem, hne, hname, hpath⟩
    refine ⟨String.ofList stem, by simpa using hne, by simpa using hname, ?_⟩
    apply String.toList_injective
    rw [hpath, hdot, String.toList_ofList]

/-- A parser accepts the files with its extension, but only if there is no dot in the extension. -/
theorem json_accepts_iff (extension path : String) :
    (json extension).accepts path = true ↔ '.' ∉ extension.toList ∧ EndsWith extension path := by
  rw [endsWith_iff]
  change hasExtension extension path = true ↔ _
  rw [hasExtension]
  constructor
  · intro h
    split at h
    · next stem rest hcut =>
      obtain ⟨hpath, hdot⟩ := cutLast?_eq_some_iff.1 hcut
      simp only [Bool.and_eq_true, decide_eq_true_eq] at h
      obtain ⟨⟨hne, hname⟩, rfl⟩ := h
      exact ⟨hdot, stem, hne, hname, hpath⟩
    · cases h
  · rintro ⟨hdot, stem, hne, hname, hpath⟩
    rw [hpath, cutLast?_append hdot]
    simp [hne, hname]

/-- The file `a.tar.gz` has the extension `tar.gz`, and the parser for it does not accept it. -/
theorem not_json_accepts_iff_of_dotted : ¬ ∀ extension path : String,
    (json extension).accepts path = true ↔ EndsWith extension path := by
  intro h
  have hends : EndsWith "tar.gz" "a.tar.gz" := ⟨"a", by decide, by decide, by decide⟩
  have haccepts : (json "tar.gz").accepts "a.tar.gz" = false := by decide +kernel
  rw [(h "tar.gz" "a.tar.gz").2 hends] at haccepts
  cases haccepts

end SourceHistory.Parser
