import Mathlib.Data.List.Induction
import SourceHistory.Proofs.Id.Ancestry

namespace SourceHistory.Id

open Text

variable {id parent name : String} {segments outer : List (List Char)} {last : List Char}

theorem segments?_child : segments? (child parent name) =
    (segments? parent).map (· ++ pieces separator name.toList) := by
  rw [segments?, segments?, toList_child, pieces_append]
  cases hp : pieces separator parent.toList with
  | nil => exact absurd hp (pieces_ne_nil separator parent.toList)
  | cons path entities =>
    simp only [List.cons_append]
    split <;> rfl

/-- Cut at the right, an id falls into the same segments that the grammar reads from the left. -/
theorem segments?_of_parent?_some (h : parent? id = some parent) :
    segments? id = (segments? parent).map (· ++ [(simpleName id).toList]) := by
  obtain ⟨name, hn, rfl⟩ := parent?_eq_some_iff.1 h
  rw [segments?_child, simpleName_child hn, pieces_eq_singleton hn]

theorem isNameChar_of_mem {s : List Char} {c : Char} (h : isName s = true) (hc : c ∈ s) :
    isNameChar c = true := by
  have hall : ∀ c ∈ s, isNameChar c = true := by
    simpa [isName] using (Bool.and_eq_true_iff.1 h).2
  exact hall c hc

theorem not_isName_of_isSignature {s : List Char} (h : isSignature s = true) :
    ¬ isName s = true := by
  intro hn
  have hparen : '(' ∉ s := fun hm => by simpa [isNameChar] using isNameChar_of_mem hn hm
  rw [isSignature, cutFirst?_eq_none_iff.2 hparen] at h
  cases h

theorem separator_not_mem_of_isName {s : List Char} (h : isName s = true) : separator ∉ s := by
  intro hm
  simpa [isNameChar] using isNameChar_of_mem h hm

theorem separator_not_mem_of_isSignature {s : List Char} (h : isSignature s = true) :
    separator ∉ s := by
  rw [isSignature] at h
  split at h
  · cases h
  · next name rest hopen =>
    split at h
    · next inner hclose =>
      obtain ⟨hname, hinner⟩ := Bool.and_eq_true_iff.1 h
      have hout : separator ∉ name := separator_not_mem_of_isName hname
      have hin : separator ∉ inner := by
        intro hm
        simpa using List.all_eq_true.1 hinner separator hm
      have hparens : separator ≠ '(' ∧ separator ≠ ')' := by decide
      rw [cutFirst?_eq_some hopen, cutFirst?_eq_some hclose]
      simp [hout, hin, hparens]
    · cases h

theorem isValidPath_iff : isValidPath id = true ↔ segments? id = some [] := by
  constructor
  · intro h
    have hsep := parent?_eq_none_iff.1 (parent?_of_isValidPath h)
    rw [segments?, pieces_eq_singleton hsep]
    exact if_pos h
  · intro h
    cases hp : parent? id with
    | some parent =>
      -- the last segment of an entity is among its segments
      rw [segments?_of_parent?_some hp] at h
      simp at h
    | none =>
      rw [segments?, pieces_eq_singleton (parent?_eq_none_iff.1 hp)] at h
      by_contra hpath
      cases h.symm.trans (if_neg hpath)

theorem isValidType_iff (h : segments? id = some segments) :
    isValidType id = true ↔ segments ≠ [] ∧ ∀ s ∈ segments, isName s = true := by
  rw [isValidType, h]
  simp

theorem isValidFunction_iff (h : segments? id = some (outer ++ [last])) :
    isValidFunction id = true ↔ isSignature last = true ∧ ∀ s ∈ outer, isName s = true := by
  rw [isValidFunction, h]
  simp

/-- Segments below which variables stand: names only, or names and the signature of a function. -/
def HoldVars (segments : List (List Char)) : Prop :=
  (∀ s ∈ segments, isName s = true) ∨
    ∃ outer last, segments = outer ++ [last] ∧ isSignature last = true ∧
      ∀ s ∈ outer, isName s = true

theorem holdVars_nil : HoldVars [] := Or.inl nofun

theorem holdVars_append_singleton :
    HoldVars (outer ++ [last]) ↔
      (isName last = true ∨ isSignature last = true) ∧ ∀ s ∈ outer, isName s = true := by
  simp only [HoldVars, List.forall_mem_append, List.forall_mem_singleton]
  constructor
  · rintro (⟨houter, hlast⟩ | ⟨outer', last', he, hlast, houter⟩)
    · exact ⟨Or.inl hlast, houter⟩
    · obtain ⟨rfl, rfl⟩ : outer = outer' ∧ last = last' := by simpa using he
      exact ⟨Or.inr hlast, houter⟩
  · rintro ⟨hlast | hlast, houter⟩
    · exact Or.inl ⟨houter, hlast⟩
    · exact Or.inr ⟨outer, last, rfl, hlast, houter⟩

theorem HoldVars.isName_of_mem_dropLast (h : HoldVars segments) :
    ∀ s ∈ segments.dropLast, isName s = true := by
  rcases h with hnames | ⟨outer, last, rfl, -, houter⟩
  · exact fun s hs => hnames s (List.dropLast_subset segments hs)
  · rwa [List.dropLast_concat]

theorem isValidVar_iff (h : segments? id = some (outer ++ [last])) :
    isValidVar id = true ↔ isName last = true ∧ HoldVars outer := by
  rw [isValidVar, h, Option.map_some, List.reverse_append, List.reverse_singleton,
    List.singleton_append]
  cases outer using List.reverseRecOn with
  | nil => simp [holdVars_nil]
  | append_singleton containers owner =>
    rw [List.reverse_append, List.reverse_singleton, List.singleton_append,
      holdVars_append_singleton]
    simp [and_assoc]

theorem exists_of_isValidFunction (h : isValidFunction id = true) :
    ∃ containers last, segments? id = some (containers ++ [last]) ∧ isSignature last = true := by
  rw [isValidFunction] at h
  split at h
  · next last containers hs =>
    obtain ⟨segments, hseg, hrev⟩ := Option.map_eq_some_iff.1 hs
    refine ⟨containers.reverse, last, ?_, (Bool.and_eq_true_iff.1 h).1⟩
    rw [hseg, ← List.reverse_cons, ← hrev, List.reverse_reverse]
  · cases h

/-- Below a function there is no room for more than one segment. -/
theorem separator_not_mem_of_isValidVar_child (hf : isValidFunction parent = true)
    (hv : isValidVar (child parent name) = true) : separator ∉ name.toList := by
  intro hsep
  obtain ⟨containers, last, hseg, hsig⟩ := exists_of_isValidFunction hf
  obtain ⟨below, x, hbelow, hpieces⟩ :
      ∃ below x, below ≠ [] ∧ pieces separator name.toList = below ++ [x] := by
    have hne := pieces_ne_nil separator name.toList
    have hlen := length_pieces_of_mem hsep
    refine ⟨_, _, ?_, (List.dropLast_append_getLast hne).symm⟩
    rw [ne_eq, ← List.length_eq_zero_iff, List.length_dropLast]
    omega
  have hchild : segments? (child parent name) = some (containers ++ [last] ++ below ++ [x]) := by
    rw [segments?_child, hseg, hpieces, Option.map_some, List.append_assoc _ below]
  -- the signature of the function is not the last segment above the variable
  have hmem : last ∈ (containers ++ [last] ++ below).dropLast := by
    rw [List.dropLast_append_of_ne_nil hbelow]
    simp
  have hhold := ((isValidVar_iff hchild).1 hv).2
  exact not_isName_of_isSignature hsig (hhold.isName_of_mem_dropLast last hmem)

end SourceHistory.Id

namespace SourceHistory.Kind

variable {kind other : Kind} {id : String}

theorem eq_unit_of_isValidId (hu : Kind.unit.isValidId id = true) (h : kind.isValidId id = true) :
    kind = .unit := by
  by_contra hne
  obtain ⟨parent, hp⟩ := exists_parent?_of_isValidId h hne
  rw [parent?_of_isValidId_unit hu] at hp
  cases hp

theorem eq_function_of_isValidId (hf : Kind.function.isValidId id = true)
    (h : kind.isValidId id = true) : kind = .function := by
  obtain ⟨containers, last, hseg, hsig⟩ := Id.exists_of_isValidFunction hf
  have hne := Id.not_isName_of_isSignature hsig
  cases kind with
  | unit => exact (eq_unit_of_isValidId h hf).symm
  | function => rfl
  | type => exact absurd (((Id.isValidType_iff hseg).1 h).2 last (by simp)) hne
  | var => exact absurd ((Id.isValidVar_iff hseg).1 h).1 hne

/-- Of two different kinds that fit one id, one holds no children. -/
theorem eq_var_or_of_isValidId (h : kind.isValidId id = true) (ho : other.isValidId id = true)
    (hne : kind ≠ other) : kind = .var ∨ other = .var := by
  cases kind with
  | unit => exact absurd (eq_unit_of_isValidId h ho).symm hne
  | function => exact absurd (eq_function_of_isValidId h ho).symm hne
  | var => exact Or.inl rfl
  | type =>
    cases other with
    | unit => exact absurd (eq_unit_of_isValidId ho h) hne
    | function => exact absurd (eq_function_of_isValidId ho h) hne
    | var => exact Or.inr rfl
    | type => exact absurd rfl hne

end SourceHistory.Kind
